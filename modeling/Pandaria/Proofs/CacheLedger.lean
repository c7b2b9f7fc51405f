import Pandaria.Comp.Executor
import Pandaria.Lib.Run

/-!
# The account of the session cache

Every operation conserves the sessions: what was in the cache and what is put
in is what is in it afterwards, what the operation hands out, and what it
drops (`conserved`). Over a run the three add up to all that was inserted, so
the account is balanced without the dropped ones exactly as long as there are
none. Three operations drop: a `get` that finds its entry expired, a `put` over
another session, and the cleanup where an actor is locked. The `LruCache`
itself never does: room is made before it would (`fallen_eq_none`).
-/

namespace Pandaria.Comp

open Pandaria.Lib

namespace SessionCache

variable {c : SessionCache} {key : String} {entry : CachedSession} {a : Nat}

/-! ## Rows that go -/

theorem count_sessions (h : c.entries.get? key = some entry) :
    c.sessions.count a = [entry.actor].count a +
      (({ c with entries := c.entries.erase key } : SessionCache).sessions).count a := by
  have hperm := ((Table.rows_perm_erase h).map fun row => row.2.actor).count_eq a
  rw [sessions, hperm, List.map_cons, ← List.singleton_append, List.count_append]
  rfl

theorem count_use :
    (({ c with entries := c.entries.use key entry } : SessionCache).sessions).count a =
      [entry.actor].count a +
        (({ c with entries := c.entries.erase key } : SessionCache).sessions).count a := by
  rw [← List.count_append]
  rfl

theorem erase_of_none (h : c.entries.get? key = none) :
    (({ c with entries := c.entries.erase key } : SessionCache)).sessions = c.sessions := by
  rw [sessions, sessions, Table.erase_eq_self h]

/-- The row that makes room. -/
theorem evicted_eq_some {row : String × CachedSession} (h : c.evicted key = some row) :
    c.maxCached ≤ c.len ∧ c.entries.get? key = none ∧ c.entries.get? row.1 = some row.2 := by
  rw [evicted] at h
  split at h
  · next hfull =>
    exact ⟨hfull.1, by simpa using hfull.2, Table.get?_last h⟩
  · cases h

theorem makeRoom_get? : (c.makeRoom key).entries.get? key = c.entries.get? key := by
  rw [makeRoom]
  split
  · next row h =>
    obtain ⟨_, hnone, hrow⟩ := evicted_eq_some h
    show (c.entries.erase row.1).get? key = c.entries.get? key
    rw [Table.get?_erase]
    split
    · exact hnone.symm
    · rfl
  · rfl

theorem count_makeRoom :
    c.sessions.count a = (c.makeRoom key).sessions.count a +
      ((c.evicted key).toList.map fun row => row.2.actor).count a := by
  rw [makeRoom]
  split
  · next row h =>
    obtain ⟨_, _, hrow⟩ := evicted_eq_some h
    rw [h, count_sessions hrow, Nat.add_comm]
    rfl
  · next h =>
    rw [h]
    rfl

/-! ## The capacity -/

theorem capacity_pos : 0 < c.capacity := by
  rw [capacity]
  omega

/-- There is room for a new key before the `LruCache` is asked to make it. -/
theorem makeRoom_len (h : c.len ≤ c.capacity) (hnone : c.entries.get? key = none) :
    (c.makeRoom key).len < c.capacity := by
  have hpos := @capacity_pos c
  rw [makeRoom]
  split
  · next row hrow =>
    have hlength := Table.length_erase (evicted_eq_some hrow).2.2
    show (c.entries.erase row.1).rows.length < c.capacity
    rw [len] at h
    omega
  · next hkept =>
    rw [evicted] at hkept
    split at hkept
    · have hempty : c.entries.rows = [] := List.getLast?_eq_none_iff.mp hkept
      rw [len, hempty]
      exact hpos
    · next hfull =>
      have hshort : ¬ c.maxCached ≤ c.entries.rows.length := by
        intro hle
        exact hfull ⟨hle, by rw [hnone]; rfl⟩
      rw [len, capacity]
      omega

theorem makeRoom_capacity : (c.makeRoom key).capacity = c.capacity := by
  rw [makeRoom]
  split
  · rfl
  · rfl

theorem fallen_eq_none (h : c.len ≤ c.capacity) : ((c.makeRoom key).lruPut key entry).1 = none := by
  rw [lruPut, makeRoom_get?, makeRoom_capacity]
  cases hkey : c.entries.get? key with
  | some old => simp
  | none =>
    have hroom := makeRoom_len h hkey
    have hle : ¬ c.capacity ≤ (c.makeRoom key).len := by omega
    simp [hle]

/-- The insert of a `put`, in a cache that has room. -/
theorem lruPut_eq (h : c.len ≤ c.capacity) :
    ((c.makeRoom key).lruPut key entry).2 =
      { c.makeRoom key with entries := (c.makeRoom key).entries.use key entry } := by
  have hfallen := @fallen_eq_none c key entry h
  rw [lruPut] at hfallen ⊢
  simp only [] at hfallen ⊢
  rw [hfallen]

/-- And so it is the `put` of a table without a capacity. -/
theorem lruPut_eq_put (h : c.len ≤ c.capacity) :
    ((c.makeRoom key).lruPut key entry).2 = (c.put key entry).2 := by
  rw [lruPut_eq h, put, makeRoom]
  cases c.evicted key with
  | some row => rfl
  | none => rfl

theorem len_use :
    (({ c with entries := c.entries.use key entry } : SessionCache)).len =
      (c.entries.erase key).rows.length + 1 := rfl

theorem len_put (h : c.len ≤ c.capacity) :
    ((c.makeRoom key).lruPut key entry).2.len ≤ c.capacity := by
  rw [lruPut_eq h, len_use]
  cases hkey : c.entries.get? key with
  | none =>
    have hroom := makeRoom_len h hkey
    have herase := Table.erase_eq_self ((@makeRoom_get? c key).trans hkey)
    rw [herase]
    exact hroom
  | some old =>
    have herase := Table.length_erase ((@makeRoom_get? c key).trans hkey)
    have hkept : c.evicted key = none := by
      rw [evicted, hkey]
      simp
    have hroom : c.makeRoom key = c := by rw [makeRoom, hkept]
    rw [hroom] at herase ⊢
    rw [len] at h
    omega

end SessionCache

/-! ## One operation -/

namespace CacheLedger

open SessionCache

variable {c : SessionCache} {a : Nat}

theorem next_capacity (e : CacheEvent) : (next c e).capacity = c.capacity := by
  cases e with
  | get now key =>
    show (c.get now key).2.capacity = c.capacity
    rw [SessionCache.get]
    split
    · split
      · rfl
      · rfl
    · rfl
  | put key entry => exact makeRoom_capacity
  | pop _ | evictIdle _ | drainAll | cleanup _ _ => rfl

theorem next_len (h : c.len ≤ c.capacity) (e : CacheEvent) : (next c e).len ≤ c.capacity := by
  have herase : ∀ key, (c.entries.erase key).rows.length ≤ c.len :=
    fun key => List.length_filter_le _ _
  cases e with
  | get now key =>
    show (c.get now key).2.len ≤ c.capacity
    rw [SessionCache.get]
    split
    · next entry hkey =>
      have hlength := Table.length_erase hkey
      split
      · rw [len_use, ← hlength]
        exact h
      · exact Nat.le_trans (herase key) h
    · exact h
  | put key entry => exact len_put h
  | pop key => exact Nat.le_trans (herase key) h
  | evictIdle now | cleanup now busy => exact Nat.le_trans (List.length_filter_le _ _) h
  | drainAll => exact Nat.zero_le _

theorem count_idle (now : Nat) :
    c.sessions.count a = (c.evictIdle now).sessions.count a +
      ((c.idleRows now).map fun row => row.2.actor).count a := by
  have hperm := List.filter_append_perm (fun row : String × CachedSession => c.idle now row.2)
    c.entries.rows
  have hcount := ((hperm.map fun row => row.2.actor).count_eq a).symm
  rw [List.map_append, List.count_append] at hcount
  rw [SessionCache.sessions, hcount, Nat.add_comm]
  rfl

/-- What is in the cache and is put into it is what is in it afterwards, what
is handed out and what is dropped. -/
theorem conserved (h : c.len ≤ c.capacity) (e : CacheEvent) :
    c.sessions.count a + (inserting c e).count a =
      (next c e).sessions.count a + (handing c e).count a + (losses c e).count a := by
  cases e with
  | get now key =>
    show c.sessions.count a + 0 = (c.get now key).2.sessions.count a + 0 + _
    rw [SessionCache.get, losses]
    cases hkey : c.entries.get? key with
    | none => rfl
    | some entry =>
      have hcount := @count_sessions c key entry a hkey
      simp only []
      split
      · have huse := @count_use c key { entry with lastUsed := now } a
        simp only [List.count_nil] at huse ⊢
        omega
      · simp only []
        omega
  | put key entry =>
    show c.sessions.count a + (inserting c (.put key entry)).count a =
      ((c.makeRoom key).lruPut key entry).2.sessions.count a + _ + _
    have hmade := @count_makeRoom c key a
    have huse := @count_use (c.makeRoom key) key entry a
    rw [lruPut_eq h, huse, handing, losses, fallen_eq_none h, inserting]
    have hget := @makeRoom_get? c key
    cases hkey : c.entries.get? key with
    | none =>
      rw [hkey] at hget
      rw [erase_of_none hget]
      simp only [Option.any_none, Option.filter_none, Option.toList_none, List.map_nil,
        List.append_nil, List.count_nil, Bool.false_eq_true, if_false]
      omega
    | some old =>
      rw [hkey] at hget
      have hcount := @count_sessions (c.makeRoom key) key old a hget
      by_cases hsame : old.actor = entry.actor
      · rw [hsame] at hcount
        simp only [Option.any_some, Option.filter_some, hsame, decide_true, if_true, ne_eq,
          not_true_eq_false, decide_false, Bool.false_eq_true, if_false, Option.toList_none,
          List.map_nil, List.append_nil, List.count_nil]
        omega
      · simp only [Option.any_some, Option.filter_some, hsame, decide_false, if_false, ne_eq,
          not_false_eq_true, decide_true, if_true, Bool.false_eq_true, Option.toList_some,
          Option.toList_none, List.map_nil, List.map_cons, List.append_nil]
        omega
  | pop key =>
    show c.sessions.count a + 0 =
      (({ c with entries := c.entries.erase key } : SessionCache).sessions).count a +
        ((c.entries.get? key).toList.map CachedSession.actor).count a + 0
    cases hkey : c.entries.get? key with
    | none =>
      rw [erase_of_none hkey]
      rfl
    | some entry =>
      have hcount := @count_sessions c key entry a hkey
      rw [Option.toList_some, List.map_singleton]
      omega
  | evictIdle now =>
    have hidle := @count_idle c a now
    exact hidle
  | drainAll =>
    show c.sessions.count a + 0 = 0 + c.sessions.count a + 0
    omega
  | cleanup now busy =>
    have hidle := @count_idle c a now
    have hperm := List.filter_append_perm (fun actor => busy.contains actor)
      ((c.idleRows now).map fun row => row.2.actor)
    have hsplit := hperm.count_eq a
    rw [List.count_append] at hsplit
    show c.sessions.count a + 0 = (c.evictIdle now).sessions.count a + _ + _
    rw [handing, losses]
    omega

/-! ## Runs -/

/-- The cache has not outgrown its capacity, and the sessions that were
inserted are in it, handed out or lost. -/
structure Accounted (l : CacheLedger) : Prop where
  len : l.cache.len ≤ l.cache.capacity
  whole : ∀ a, l.inserted.count a =
    l.cache.sessions.count a + l.handed.count a + l.lost.count a

theorem accounted_start (maxCached idleTimeout : Nat) : (start maxCached idleTimeout).Accounted :=
  ⟨Nat.zero_le _, fun _ => rfl⟩

theorem accounted_step {l : CacheLedger} (h : l.Accounted) (e : CacheEvent) :
    (l.step e).Accounted := by
  constructor
  · show (next l.cache e).len ≤ (next l.cache e).capacity
    rw [next_capacity]
    exact next_len h.len e
  · intro a
    have hwhole := h.whole a
    have hstep := @conserved l.cache a h.len e
    simp only [step, List.count_append]
    omega

theorem accounted_run (maxCached idleTimeout : Nat) (events : List CacheEvent) :
    (events.foldl step (start maxCached idleTimeout)).Accounted := by
  have hstep (l : CacheLedger) (e : CacheEvent) (h : l.Accounted) : (l.step e).Accounted :=
    accounted_step h e
  exact foldl_invariant hstep (accounted_start maxCached idleTimeout) events

theorem step_capacity (l : CacheLedger) (e : CacheEvent) :
    (l.step e).cache.capacity = l.cache.capacity := next_capacity e

/-- Every session that was inserted is in the cache or has been handed out, as
often as it was inserted. -/
def Balanced (l : CacheLedger) : Prop :=
  ∀ a, l.inserted.count a = l.cache.sessions.count a + l.handed.count a

theorem Accounted.balanced_iff_lost {l : CacheLedger} (h : l.Accounted) :
    l.Balanced ↔ l.lost = [] := by
  constructor
  · intro hbalanced
    rw [List.eq_nil_iff_forall_not_mem]
    intro a ha
    have hwhole := h.whole a
    have hcount := List.count_pos_iff.mpr ha
    rw [hbalanced a] at hwhole
    omega
  · intro hlost a
    rw [h.whole a, hlost]
    rfl

/-- Where all sessions are different, each one inserted is in the cache, or has
been handed out, and that once. -/
theorem Balanced.once {l : CacheLedger} (h : l.Balanced) (hdistinct : l.inserted.Nodup) {a : Nat}
    (ha : a ∈ l.inserted) :
    (a ∈ l.cache.sessions ∧ a ∉ l.handed) ∨ (a ∉ l.cache.sessions ∧ l.handed.count a = 1) := by
  have hone := List.count_eq_one_of_mem hdistinct ha
  rw [h a] at hone
  rcases Nat.eq_zero_or_pos (l.cache.sessions.count a) with hcached | hcached
  · right
    exact ⟨List.count_eq_zero.mp hcached, by omega⟩
  · left
    exact ⟨List.count_pos_iff.mp hcached, List.count_eq_zero.mp (by omega)⟩

/-- The operation drops nothing: a lookup finds nothing that has expired, an
insert meets no other session under its key, and no actor the cleanup comes to
is locked. -/
def Keeps (l : CacheLedger) : CacheEvent → Prop
  | .get now key => ∀ entry, l.cache.entries.get? key = some entry →
      now - entry.lastUsed < l.cache.idleTimeout
  | .put key entry => ∀ old, l.cache.entries.get? key = some old → old.actor = entry.actor
  | .cleanup now busy => ∀ row ∈ l.cache.idleRows now, row.2.actor ∉ busy
  | .pop _ | .evictIdle _ | .drainAll => True

theorem losses_eq_nil_iff {l : CacheLedger} (h : l.Accounted) (e : CacheEvent) :
    losses l.cache e = [] ↔ l.Keeps e := by
  cases e with
  | get now key =>
    rw [losses, Keeps]
    cases hkey : l.cache.entries.get? key with
    | none => simp
    | some entry =>
      simp only [Option.some.injEq, forall_eq']
      split
      · next hfresh => simp [hfresh]
      · next hexpired => simp [hexpired]
  | put key entry =>
    rw [losses, fallen_eq_none h.len, Keeps]
    cases hkey : l.cache.entries.get? key with
    | none => simp
    | some old =>
      by_cases hsame : old.actor = entry.actor
      · simp [hsame]
      · simp [hsame]
  | cleanup now busy =>
    rw [losses, Keeps, List.filter_eq_nil_iff, List.forall_mem_map]
    simp
  | pop _ | evictIdle _ | drainAll => simp [losses, Keeps]

theorem lost_run {l : CacheLedger} (h : l.Accounted) (events : List CacheEvent) :
    (events.foldl step l).lost = [] ↔ l.lost = [] ∧ Along step Keeps l events := by
  induction events generalizing l with
  | nil => simp [Along]
  | cons e events ih =>
    rw [List.foldl_cons, ih (accounted_step h e), Along, ← losses_eq_nil_iff h e]
    show l.lost ++ losses l.cache e = [] ∧ _ ↔ _
    rw [List.append_eq_nil_iff, and_assoc]

/-- After any operations at any times the cache holds no more than it may, and
every session inserted is in it or was handed out exactly if no operation of
the run has dropped one. -/
theorem balanced_iff (maxCached idleTimeout : Nat) (events : List CacheEvent) :
    (events.foldl step (start maxCached idleTimeout)).cache.len ≤ max 1 maxCached ∧
      ((events.foldl step (start maxCached idleTimeout)).Balanced ↔
        Along step Keeps (start maxCached idleTimeout) events) := by
  have haccounted := accounted_run maxCached idleTimeout events
  constructor
  · have hcapacity : (events.foldl step (start maxCached idleTimeout)).cache.capacity =
        max maxCached 1 := by
      have hstep (l : CacheLedger) (e : CacheEvent) (h : l.cache.capacity = max maxCached 1) :
          (l.step e).cache.capacity = max maxCached 1 := (step_capacity l e).trans h
      exact foldl_invariant hstep rfl events
    rw [Nat.max_comm, ← hcapacity]
    exact haccounted.len
  · rw [haccounted.balanced_iff_lost, lost_run (accounted_start maxCached idleTimeout)]
    exact and_iff_right rfl

/-- A session that expires before the next lookup, one that is replaced, and
one that is running when the cleanup finds it idle. -/
theorem dropped :
    ¬ ([.put "a" ⟨0, 0⟩, .get 9 "a"].foldl step (start 2 5)).Balanced ∧
      ¬ ([.put "a" ⟨0, 0⟩, .put "a" ⟨1, 1⟩].foldl step (start 2 5)).Balanced ∧
      ¬ ([.put "a" ⟨0, 0⟩, .cleanup 9 [0]].foldl step (start 2 5)).Balanced := by
  refine ⟨?_, ?_, ?_⟩
  all_goals
    intro h
    exact absurd (h 0) (by decide)

end CacheLedger

end Pandaria.Comp
