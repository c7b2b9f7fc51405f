import Pandaria.Comp.Executor
import Pandaria.Lib.Run
import Pandaria.Lib.Threads

/-!
# One actor a role and model

The semaphore lets several calls through, so two of a key may both miss the
second look and both make an actor; and what is evicted need not be idle, as an
entry tells when it was last handed out and not whether it is in use. When no
step does either, the cache holds the one actor of every key that is in use, and
a call that makes one is alone in it. A call that has ended counts as long as
one that overlapped it goes on: that one may still be without an actor.
-/

namespace Pandaria.Comp

open Pandaria.Lib

/-! ## What is in the cache -/

namespace SessionCache

variable {c c' : SessionCache} {now : Nat} {key : String}

def actor? (c : SessionCache) (key : String) : Option Nat :=
  (c.entries.get? key).map CachedSession.actor

/-- The key, when a look at it drops what is there. -/
def expired (c : SessionCache) (now : Nat) (key : String) : List String :=
  match c.entries.get? key with
  | some entry => if now - entry.lastUsed < c.idleTimeout then [] else [key]
  | none => []

theorem get_hit {cached : CachedSession} (h : c.get now key = (some cached, c')) :
    c.actor? key = some cached.actor ∧ c'.actor? = c.actor? := by
  rw [get] at h
  split at h
  · next entry he =>
      split at h
      · injection h with hcached hc
        injection hcached with hcached
        subst hcached hc
        have hkey : c.actor? key = some entry.actor := by rw [actor?, he]; rfl
        refine ⟨hkey, funext fun j => ?_⟩
        show ((c.entries.use key _).get? j).map CachedSession.actor = c.actor? j
        rw [Table.get?_use]
        split
        · next hj => rw [hj, hkey]; rfl
        · rfl
      · cases h
  · cases h

theorem get_miss (h : c.get now key = (none, c')) :
    c.actor? key = none ∧ c' = c ∨
      key ∈ c.expired now key ∧ ∀ j, c'.actor? j = if j = key then none else c.actor? j := by
  rw [get] at h
  split at h
  · next entry he =>
      split at h
      · cases h
      · next hold =>
          injection h with _ hc
          subst hc
          refine .inr ⟨by simp [expired, he, hold], fun j => ?_⟩
          show ((c.entries.erase key).get? j).map CachedSession.actor = _
          rw [Table.get?_erase]
          split
          · rfl
          · rfl
  · next he =>
      injection h with _ hc
      exact .inl ⟨by rw [actor?, he]; rfl, hc.symm⟩

/-- The cache once `put` has made room for the key. -/
def room (c : SessionCache) (key : String) : SessionCache :=
  { c with entries := match c.evicted key with
    | some row => c.entries.erase row.1
    | none => c.entries }

theorem actor?_room (c : SessionCache) (key j : String) :
    (c.room key).actor? j = c.actor? j ∨
      (c.room key).actor? j = none ∧ j ∈ ((c.evicted key).map Prod.fst).toList := by
  rw [actor?, room]
  cases c.evicted key with
  | none => exact .inl rfl
  | some row =>
      show ((c.entries.erase row.1).get? j).map CachedSession.actor = c.actor? j ∨
        ((c.entries.erase row.1).get? j).map CachedSession.actor = none ∧ _
      rw [Table.get?_erase]
      split
      · next hj => exact .inr ⟨rfl, by simp [hj]⟩
      · exact .inl rfl

theorem actor?_put (c : SessionCache) (key : String) (entry : CachedSession) (j : String) :
    (c.put key entry).2.actor? j = if j = key then some entry.actor else (c.room key).actor? j := by
  show (((c.room key).entries.use key entry).get? j).map CachedSession.actor = _
  rw [Table.get?_use]
  split
  · rfl
  · rfl

theorem actor?_evictIdle (c : SessionCache) (now : Nat) (j : String) :
    (c.evictIdle now).actor? j = c.actor? j ∨
      (c.evictIdle now).actor? j = none ∧ j ∈ c.entries.select fun _ entry => c.idle now entry := by
  show ((c.entries.filter _).get? j).map CachedSession.actor = c.actor? j ∨
    ((c.entries.filter _).get? j).map CachedSession.actor = none ∧ _
  rw [Table.get?_filter, Table.mem_select, actor?]
  cases c.entries.get? j with
  | none => exact .inl rfl
  | some entry =>
      cases hidle : c.idle now entry with
      | true => exact .inr ⟨by simp [hidle], entry, rfl, hidle⟩
      | false => exact .inl (by simp [hidle])

end SessionCache

/-! ## Overlapping calls -/

/-- Neither has ended before the other began. -/
def ExecutorCall.Overlaps (c c' : ExecutorCall) : Prop :=
  (∀ t ∈ c.stop, c'.start < t) ∧ ∀ t ∈ c'.stop, c.start < t

instance (c c' : ExecutorCall) : Decidable (c.Overlaps c') :=
  inferInstanceAs (Decidable (_ ∧ _))

theorem ExecutorCall.Overlaps.symm {c c' : ExecutorCall} (h : c.Overlaps c') : c'.Overlaps c :=
  ⟨h.2, h.1⟩

theorem ExecutorCall.Overlaps.of_going {c : ExecutorCall} (h : c.stop = none) : c.Overlaps c := by
  rw [Overlaps, h]
  exact ⟨fun _ ht => (by cases ht), fun _ ht => (by cases ht)⟩

namespace Executor

/-- The actor belongs to a call that goes on, or a later call may find it. -/
def Live (s : Executor) (key : String) (actor : Nat) : Prop :=
  (∃ c ∈ s.calls, c.inProgress ∧ c.key = key ∧ c.actor = some actor) ∨
    s.cache.actor? key = some actor

structure OneActor (s : Executor) : Prop where
  shared : ∀ c ∈ s.calls, ∀ c' ∈ s.calls, c.roleId = c'.roleId → c.model = c'.model →
    c.Overlaps c' → ∀ a ∈ c.actor, ∀ a' ∈ c'.actor, a = a'
  single : ∀ key a a', s.Live key a → s.Live key a' → a = a'

/-- A call of the key has an actor, and one that overlaps it goes on. -/
def InUse (s : Executor) (key : String) : Prop :=
  ∃ c ∈ s.calls, c.key = key ∧ c.actor.isSome ∧
    ∃ c' ∈ s.calls, c'.key = key ∧ c'.inProgress ∧ c.Overlaps c'

/-- The keys whose entry the cache drops at a step. -/
def dropped (s : Executor) : ExecutorEvent → List String
  | .advance i =>
      match s.calls[i]? with
      | some c =>
          match c.phase with
          | .lookup | .recheck => s.cache.expired s.now c.key
          | .building => ((s.cache.evicted c.key).map Prod.fst).toList
          | _ => []
      | none => []
  | .cleanup => s.cache.entries.select fun _ entry => s.cache.idle s.now entry
  | .call .. | .leave _ | .wait _ => []

/-- Nobody is building for the key of a call that takes its second look. -/
def Alone (s : Executor) : ExecutorEvent → Prop
  | .advance i => ∀ c ∈ s.calls[i]?, c.phase = .recheck →
      ∀ c' ∈ s.calls, c'.phase = .building → c'.key ≠ c.key
  | .call .. | .leave _ | .cleanup | .wait _ => True

def Ok (s : Executor) (e : ExecutorEvent) : Prop :=
  (∀ key ∈ s.dropped e, ¬ s.InUse key) ∧ s.Alone e

instance (s : Executor) (key : String) : Decidable (s.InUse key) :=
  inferInstanceAs (Decidable (∃ c ∈ s.calls, _ ∧ _ ∧ ∃ c' ∈ s.calls, _ ∧ _ ∧ _))

instance (s : Executor) : ∀ e, Decidable (s.Alone e)
  | .advance i => inferInstanceAs (Decidable (∀ c ∈ s.calls[i]?, _ → ∀ c' ∈ s.calls, _ → _))
  | .call .. | .leave _ | .cleanup | .wait _ => inferInstanceAs (Decidable True)

instance (s : Executor) (e : ExecutorEvent) : Decidable (s.Ok e) :=
  inferInstanceAs (Decidable (_ ∧ _))

/-! ## The cache and the calls -/

/-- The cache holds the actor of every key in use, and a building call is alone. -/
structure Inv (s : Executor) : Prop where
  times : ∀ c ∈ s.calls, c.start < s.clock ∧ ∀ t ∈ c.stop, t < s.clock
  phases : ∀ c ∈ s.calls, c.phase ≠ .ended → c.stop = none
  held : ∀ c ∈ s.calls, ∀ a ∈ c.actor, ∀ c' ∈ s.calls, c'.stop = none → c.key = c'.key →
    c.Overlaps c' → s.cache.actor? c.key = some a
  agree : ∀ c ∈ s.calls, ∀ a ∈ c.actor, ∀ c' ∈ s.calls, ∀ a' ∈ c'.actor, c.key = c'.key →
    c.Overlaps c' → a = a'
  absent : ∀ c ∈ s.calls, c.phase = .building → s.cache.actor? c.key = none
  alone : ∀ (i : Nat) (c : ExecutorCall), s.calls[i]? = some c → c.phase = .building →
    ∀ (j : Nat) (c' : ExecutorCall), s.calls[j]? = some c' → c'.phase = .building →
      c.key = c'.key → i = j

namespace Inv

variable {s s' : Executor} {i : Nat} {c d : ExecutorCall}

/-- What is dropped is of no key in use, and what is new of one nobody builds for. -/
theorem recache (h : s.Inv) {cache : SessionCache}
    (hcache : ∀ key, cache.actor? key = s.cache.actor? key ∨
      cache.actor? key = none ∧ ¬ s.InUse key ∨
      s.cache.actor? key = none ∧ ∀ c ∈ s.calls, c.phase = .building → c.key ≠ key) :
    { s with cache := cache }.Inv := by
  refine ⟨h.times, h.phases, fun c hc a ha c' hc' hgoing hsame hover => ?_, h.agree,
    fun c hc hbuilding => ?_, h.alone⟩
  · have hheld := h.held c hc a ha c' hc' hgoing hsame hover
    rcases hcache c.key with hkey | ⟨-, hnot⟩ | ⟨hnone, -⟩
    · exact hkey.trans hheld
    · exact absurd ⟨c, hc, rfl, Option.isSome_iff_exists.mpr ⟨a, ha⟩, c', hc', hsame.symm,
        Option.isNone_iff_eq_none.mpr hgoing, hover⟩ hnot
    · rw [hnone] at hheld
      cases hheld
  · rcases hcache c.key with hkey | ⟨hkey, -⟩ | ⟨-, hnot⟩
    · exact hkey.trans (h.absent c hc hbuilding)
    · exact hkey
    · exact absurd rfl (hnot c hc hbuilding)

/-- A call goes on, or ends. An actor it has then was its own or is the cached
one, and if it begins to build, it does so alone. -/
theorem move (h : s.Inv) (hi : s.calls[i]? = some c) (hgoing : c.stop = none)
    (hcache : s'.cache.actor? = s.cache.actor?) (hcalls : s'.calls = s.calls.set i d)
    (hclock : s.clock ≤ s'.clock) (hkey : d.key = c.key) (hstart : d.start = c.start)
    (hstop : d.stop = none ∨ d.stop = some s.clock ∧ d.phase = .ended ∧ s.clock < s'.clock)
    (hactor : ∀ a ∈ d.actor, a ∈ c.actor ∨ s.cache.actor? c.key = some a)
    (hbuilding : d.phase = .building → s.cache.actor? c.key = none ∧
      ∀ c' ∈ s.calls, c'.phase = .building → c'.key ≠ c.key) : s'.Inv := by
  have hc : c ∈ s.calls := List.mem_of_getElem? hi
  -- what every call was before
  have hwas : ∀ x ∈ s'.calls, ∃ y ∈ s.calls, x.key = y.key ∧ x.start = y.start ∧
      (x.stop = y.stop ∨ y.stop = none ∧ x.stop ≠ none) ∧
      ∀ a ∈ x.actor, a ∈ y.actor ∨ y.stop = none ∧ s.cache.actor? y.key = some a := by
    rw [hcalls]
    refine forall_mem_set (fun x hx => ⟨x, hx, rfl, rfl, .inl rfl, fun a ha => .inl ha⟩)
      ⟨c, hc, hkey, hstart, ?_, fun a ha => (hactor a ha).imp_right fun hcached =>
        ⟨hgoing, hcached⟩⟩ i
    rcases hstop with hstop | ⟨hstop, -⟩
    · exact .inl (hstop.trans hgoing.symm)
    · exact .inr ⟨hgoing, by simp [hstop]⟩
  have hover : ∀ {x y x' y' : ExecutorCall}, x.start = y.start → x'.start = y'.start →
      (x.stop = y.stop ∨ y.stop = none ∧ x.stop ≠ none) →
      (x'.stop = y'.stop ∨ y'.stop = none ∧ x'.stop ≠ none) → x.Overlaps x' → y.Overlaps y' := by
    intro x y x' y' hx hx' hs hs' ho
    constructor
    · intro t ht
      rcases hs with hs | ⟨hs, -⟩
      · exact hx' ▸ ho.1 t (hs ▸ ht)
      · rw [hs] at ht
        cases ht
    · intro t ht
      rcases hs' with hs' | ⟨hs', -⟩
      · exact hx ▸ ho.2 t (hs' ▸ ht)
      · rw [hs'] at ht
        cases ht
  refine ⟨?_, ?_, ?_, ?_, ?_, ?_⟩
  · rw [hcalls]
    refine forall_mem_set (fun x hx => ?_) ?_ i
    · obtain ⟨hx1, hx2⟩ := h.times x hx
      exact ⟨by omega, fun t ht => by have := hx2 t ht; omega⟩
    · have hc1 := (h.times c hc).1
      refine ⟨by omega, fun t ht => ?_⟩
      rcases hstop with hstop | ⟨hstop, -, hlt⟩
      · rw [hstop] at ht
        cases ht
      · rw [hstop] at ht
        cases ht
        exact hlt
  · rw [hcalls]
    refine forall_mem_set h.phases (fun hd => ?_) i
    exact hstop.elim id fun ⟨_, hended, _⟩ => absurd hended hd
  · intro x hx a ha x' hx' hgoing' hsame ho
    obtain ⟨y, hy, hxk, hxs, hxt, hxa⟩ := hwas x hx
    obtain ⟨y', hy', hxk', hxs', hxt', -⟩ := hwas x' hx'
    rw [hcache, hxk]
    rcases hxa a ha with ha | ⟨-, hcached⟩
    · refine h.held y hy a ha y' hy' ?_ (by rw [← hxk, hsame, hxk']) (hover hxs hxs' hxt hxt' ho)
      rcases hxt' with ht | ⟨ht, -⟩
      · exact ht ▸ hgoing'
      · exact ht
    · exact hcached
  · intro x hx a ha x' hx' a' ha' hsame ho
    obtain ⟨y, hy, hxk, hxs, hxt, hxa⟩ := hwas x hx
    obtain ⟨y', hy', hxk', hxs', hxt', hxa'⟩ := hwas x' hx'
    have hkeys : y.key = y'.key := by rw [← hxk, hsame, hxk']
    have ho' := hover hxs hxs' hxt hxt' ho
    rcases hxa a ha with ha | ⟨hnone, hcached⟩
    · rcases hxa' a' ha' with ha' | ⟨hnone', hcached'⟩
      · exact h.agree y hy a ha y' hy' a' ha' hkeys ho'
      · have hheld := h.held y hy a ha y' hy' hnone' hkeys ho'
        rw [hkeys, hcached'] at hheld
        exact (Option.some.inj hheld).symm
    · rcases hxa' a' ha' with ha' | ⟨-, hcached'⟩
      · have hheld := h.held y' hy' a' ha' y hy hnone hkeys.symm ho'.symm
        rw [← hkeys, hcached] at hheld
        exact Option.some.inj hheld
      · rw [hkeys, hcached'] at hcached
        exact (Option.some.inj hcached).symm
  · rw [hcalls, hcache]
    exact forall_mem_set h.absent (fun hd => hkey ▸ (hbuilding hd).1) i
  · rw [hcalls]
    refine forall_getElem?_set (fun hd => ?_) (fun j x _ hx hxb => ?_)
    · refine forall_getElem?_set (fun _ _ => rfl) (fun j x _ hx hxb hsame => ?_)
      exact absurd (hsame.symm.trans hkey) ((hbuilding hd).2 x (List.mem_of_getElem? hx) hxb)
    · refine forall_getElem?_set (fun hd hsame => ?_) (fun j' x' _ => h.alone j x hx hxb j' x')
      exact absurd (hsame.trans hkey) ((hbuilding hd).2 x (List.mem_of_getElem? hx) hxb)

theorem later (h : s.Inv) (hcache : s'.cache = s.cache) (hcalls : s'.calls = s.calls)
    (hclock : s.clock ≤ s'.clock) : s'.Inv := by
  obtain ⟨htimes, hphases, hheld, hagree, habsent, halone⟩ := h
  rw [← hcache, ← hcalls] at hheld
  rw [← hcache, ← hcalls] at habsent
  rw [← hcalls] at htimes hphases hagree halone
  refine ⟨fun c hc => ?_, hphases, hheld, hagree, habsent, halone⟩
  obtain ⟨hstart, hstop⟩ := htimes c hc
  exact ⟨by omega, fun t ht => Nat.lt_of_lt_of_le (hstop t ht) hclock⟩

/-- A call that begins overlaps only those that go on. -/
theorem push (h : s.Inv) (hcache : s'.cache = s.cache) (hcalls : s'.calls = s.calls ++ [d])
    (hclock : s.clock < s'.clock) (hstart : d.start = s.clock) (hstop : d.stop = none)
    (hactor : d.actor = none) (hphase : d.phase = .resolving) : s'.Inv := by
  have hmem : ∀ x ∈ s'.calls, x ∈ s.calls ∨ x = d := fun x hx => by
    rw [hcalls] at hx
    exact (List.mem_append.mp hx).imp_right List.mem_singleton.mp
  have hold : ∀ x ∈ s'.calls, ∀ a ∈ x.actor, x ∈ s.calls := fun x hx a ha => by
    rcases hmem x hx with hx | rfl
    · exact hx
    · rw [hactor] at ha
      cases ha
  have hnot : d.phase ≠ .building := by rw [hphase]; decide
  refine ⟨fun x hx => ?_, fun x hx hx' => ?_, fun x hx a ha x' hx' hgoing hsame hover => ?_,
    fun x hx a ha x' hx' a' ha' => h.agree x (hold x hx a ha) a ha x' (hold x' hx' a' ha') a' ha',
    fun x hx hb => ?_, fun i x hi hx j x' hj hx' => ?_⟩
  · rcases hmem x hx with hx | rfl
    · obtain ⟨h1, h2⟩ := h.times x hx
      exact ⟨by omega, fun t ht => Nat.lt_trans (h2 t ht) hclock⟩
    · rw [hstop, hstart]
      exact ⟨hclock, fun t ht => by cases ht⟩
  · rcases hmem x hx with hx | rfl
    · exact h.phases x hx hx'
    · exact hstop
  · have hx := hold x hx a ha
    rw [hcache]
    rcases hmem x' hx' with hx' | rfl
    · exact h.held x hx a ha x' hx' hgoing hsame hover
    · have hnone : x.stop = none := by
        rw [Option.eq_none_iff_forall_not_mem]
        intro t ht
        have hlt := hover.1 t ht
        have hlt' := (h.times x hx).2 t ht
        omega
      exact h.held x hx a ha x hx hnone rfl (.of_going hnone)
  · rw [hcache]
    rcases hmem x hx with hx | rfl
    · exact h.absent x hx hb
    · exact absurd hb hnot
  · rw [hcalls] at hi hj
    rcases getElem?_push hi with hi | ⟨-, rfl⟩
    · rcases getElem?_push hj with hj | ⟨-, rfl⟩
      · exact h.alone i x hi hx j x' hj hx'
      · exact absurd hx' hnot
    · exact absurd hx hnot

end Inv

/-! ## Steps -/

variable {s : Executor} {i : Nat} {c : ExecutorCall}

theorem inv_finish (h : s.Inv) (hi : s.calls[i]? = some c) (hgoing : c.stop = none) :
    { s.finish i c with clock := s.clock + 1 }.Inv :=
  h.move hi hgoing rfl rfl (Nat.le_succ _) rfl rfl (.inr ⟨rfl, rfl, Nat.lt_succ_self _⟩)
    (fun _ ha => .inl ha) (fun hb => by cases hb)

/-- A look finds the actor of the key, or the call goes on without it. -/
theorem inv_look (h : s.Inv) (hi : s.calls[i]? = some c) (hgoing : c.stop = none)
    (hdropped : ∀ key ∈ s.cache.expired s.now c.key, ¬ s.InUse key) {next : AcquirePhase}
    (hbuilding : next = .building →
      ∀ c' ∈ s.calls, c'.phase = .building → c'.key ≠ c.key) :
    { s.look i c next with clock := s.clock + 1 }.Inv := by
  rw [look]
  split
  · next cached cache hget =>
      obtain ⟨hkey, hsame⟩ := SessionCache.get_hit hget
      exact h.move hi hgoing hsame rfl (Nat.le_succ _) rfl rfl (.inl hgoing)
        (fun a ha => .inr (hkey.trans ha)) (fun hb => by cases hb)
  · next cache hget =>
      have hcache : { s with cache := cache }.Inv ∧ cache.actor? c.key = none := by
        rcases SessionCache.get_miss hget with ⟨hkey, rfl⟩ | ⟨hold, hrest⟩
        · exact ⟨h, hkey⟩
        · refine ⟨h.recache fun key => ?_, by rw [hrest, if_pos rfl]⟩
          rw [hrest]
          split
          · next hk => exact .inr (.inl ⟨rfl, hk ▸ hdropped _ hold⟩)
          · exact .inl rfl
      exact hcache.1.move hi hgoing rfl rfl (Nat.le_succ _) rfl rfl (.inl hgoing)
        (fun _ ha => .inl ha) (fun hb => ⟨hcache.2, hbuilding hb⟩)

/-- With the room made and the call no longer building, the new actor is cached,
and then it is the call's. -/
theorem inv_insert (h : s.Inv) (hi : s.calls[i]? = some c) (hphase : c.phase = .building)
    (hdropped : ∀ key ∈ ((s.cache.evicted c.key).map Prod.fst).toList, ¬ s.InUse key) :
    { s.advance i c with clock := s.clock + 1 }.Inv := by
  have hc : c ∈ s.calls := List.mem_of_getElem? hi
  have hlt : i < s.calls.length := (List.getElem?_eq_some_iff.mp hi).1
  have hgoing : c.stop = none := h.phases c hc (by rw [hphase]; decide)
  have hroom : { s with cache := s.cache.room c.key }.Inv := h.recache fun key => by
    rcases s.cache.actor?_room c.key key with hsame | ⟨hnone, hgone⟩
    · exact .inl hsame
    · exact .inr (.inl ⟨hnone, hdropped key hgone⟩)
  have hkey : (s.cache.room c.key).actor? c.key = none := by
    rcases s.cache.actor?_room c.key c.key with hsame | ⟨hnone, -⟩
    · exact hsame.trans (h.absent c hc hphase)
    · exact hnone
  have hleft : ({ s with cache := s.cache.room c.key }.set i
      { c with phase := .inserted }).Inv :=
    hroom.move hi hgoing rfl rfl (Nat.le_refl _) rfl rfl (.inl hgoing) (fun _ ha => .inl ha)
      (fun hb => by cases hb)
  have hnobody : ∀ x ∈ s.calls.set i { c with phase := .inserted }, x.phase = .building →
      x.key ≠ c.key := by
    intro x hx hb hsame
    obtain ⟨j, hj⟩ := List.getElem?_of_mem hx
    refine forall_getElem?_set (P := fun _ x => x.phase = .building → x.key ≠ c.key)
      (fun hb => by cases hb) (fun j x hne hx hb hsame => ?_) j x hj hb hsame
    exact hne (h.alone i c hi hphase j x hx hb hsame.symm).symm
  have hput : { s with
      cache := (s.cache.put c.key { actor := s.made, lastUsed := s.now }).2
      calls := s.calls.set i { c with phase := .inserted } }.Inv := hleft.recache fun key => by
    rw [SessionCache.actor?_put]
    split
    · next hk =>
        refine .inr (.inr ⟨hk ▸ hkey, fun x hx hb => hk ▸ hnobody x hx hb⟩)
    · exact .inl rfl
  rw [advance, hphase]
  refine hput.move (List.getElem?_set_self hlt) hgoing rfl (List.set_set ..).symm
    (Nat.le_succ _) rfl rfl (.inl hgoing) (fun a ha => .inr ?_) (fun hb => by cases hb)
  show (s.cache.put c.key _).2.actor? c.key = some a
  rw [SessionCache.actor?_put, if_pos rfl]
  exact ha

theorem inv_advance (h : s.Inv) (hi : s.calls[i]? = some c) (hok : s.Ok (.advance i)) :
    { s.advance i c with clock := s.clock + 1 }.Inv := by
  have hc : c ∈ s.calls := List.mem_of_getElem? hi
  obtain ⟨hdropped, halone⟩ := hok
  rw [dropped, hi] at hdropped
  have hgoing (hphase : c.phase ≠ .ended) : c.stop = none := h.phases c hc hphase
  cases hphase : c.phase with
  | resolving =>
      have hgoing := hgoing (by rw [hphase]; decide)
      rw [advance, hphase]
      dsimp only
      split
      · exact h.move hi hgoing rfl rfl (Nat.le_succ _) rfl rfl (.inl hgoing)
          (fun _ ha => .inl ha) (fun hb => by cases hb)
      · exact inv_finish h hi hgoing
  | lookup =>
      simp only [hphase] at hdropped
      rw [advance, hphase]
      exact inv_look h hi (hgoing (by rw [hphase]; decide)) hdropped (fun hb => by cases hb)
  | queued =>
      have hgoing := hgoing (by rw [hphase]; decide)
      rw [advance, hphase]
      dsimp only
      split
      · exact h.later rfl rfl (Nat.le_succ _)
      · exact h.move hi hgoing rfl rfl (Nat.le_succ _) rfl rfl (.inl hgoing)
          (fun _ ha => .inl ha) (fun hb => by cases hb)
  | recheck =>
      simp only [hphase] at hdropped
      rw [advance, hphase]
      exact inv_look h hi (hgoing (by rw [hphase]; decide)) hdropped
        (fun _ => halone c hi hphase)
  | building =>
      simp only [hphase] at hdropped
      exact inv_insert h hi hphase hdropped
  | inserted =>
      have hgoing := hgoing (by rw [hphase]; decide)
      rw [advance, hphase]
      exact h.move hi hgoing rfl rfl (Nat.le_succ _) rfl rfl (.inl hgoing)
        (fun _ ha => .inl ha) (fun hb => by cases hb)
  | holding =>
      rw [advance, hphase]
      exact inv_finish h hi (hgoing (by rw [hphase]; decide))
  | ended =>
      rw [advance, hphase]
      exact h.later rfl rfl (Nat.le_succ _)

theorem inv_step (h : s.Inv) {e : ExecutorEvent} (hok : s.Ok e) : (s.step e).Inv := by
  cases e with
  | call roleId modelOverride agent =>
      exact h.push rfl rfl (Nat.lt_succ_self _) rfl rfl rfl rfl
  | advance i =>
      rw [step, act]
      split
      · next c hi => exact inv_advance h hi hok
      · exact h.later rfl rfl (Nat.le_succ _)
  | leave i =>
      rw [step, act]
      split
      · next c hi =>
          split
          · next hgoing => exact inv_finish h hi (Option.isNone_iff_eq_none.mp hgoing)
          · exact h.later rfl rfl (Nat.le_succ _)
      · exact h.later rfl rfl (Nat.le_succ _)
  | cleanup =>
      have hkept : { s with cache := s.cache.evictIdle s.now }.Inv := h.recache fun key => by
        rcases s.cache.actor?_evictIdle s.now key with hsame | ⟨hnone, hidle⟩
        · exact .inl hsame
        · exact .inr (.inl ⟨hnone, hok.1 key hidle⟩)
      exact hkept.later rfl rfl (Nat.le_succ _)
  | wait n => exact h.later rfl rfl (Nat.le_succ _)

theorem inv_start (permits maxCached idleTimeout : Nat) :
    (start permits maxCached idleTimeout).Inv := by
  constructor
  all_goals simp [start]

/-! ## One actor a key -/

theorem Inv.oneActor (h : s.Inv) : s.OneActor := by
  have hkeys (c c' : ExecutorCall) (hrole : c.roleId = c'.roleId) (hmodel : c.model = c'.model) :
      c.key = c'.key := by
    rw [ExecutorCall.key, ExecutorCall.key, hrole, hmodel]
  have hlive : ∀ key a, s.Live key a → s.cache.actor? key = some a := by
    rintro key a (⟨c, hc, hgoing, rfl, ha⟩ | hcached)
    · have hnone : c.stop = none := Option.isNone_iff_eq_none.mp hgoing
      exact h.held c hc a ha c hc hnone rfl (.of_going hnone)
    · exact hcached
  refine ⟨fun c hc c' hc' hrole hmodel hover a ha a' ha' =>
    h.agree c hc a ha c' hc' a' ha' (hkeys c c' hrole hmodel) hover, fun key a a' ha ha' => ?_⟩
  exact Option.some.inj ((hlive key a ha).symm.trans (hlive key a' ha'))

/-- In a run in which nothing in use is dropped and no two calls build for one
key, every two calls of a role and a model that overlap have one actor, and no
key ever has two. -/
theorem oneActor_of_along (permits maxCached idleTimeout : Nat) (es : List ExecutorEvent)
    (h : Along step Ok (start permits maxCached idleTimeout) es) :
    (es.foldl step (start permits maxCached idleTimeout)).OneActor := by
  have hstart : (start permits maxCached idleTimeout).Inv := inv_start ..
  have hrun : (es.foldl step (start permits maxCached idleTimeout)).Inv := by
    refine Along.invariant (fun s e hok hs => ?_) hstart h
    exact inv_step hs hok
  exact hrun.oneActor

/-- Two calls of one role: the second comes while the first runs. -/
def handedOver : List ExecutorEvent :=
  [.call "analyst" none (some ⟨"openai", "gpt-4o"⟩), .advance 0, .advance 0, .advance 0,
    .advance 0, .advance 0, .advance 0, .call "analyst" none (some ⟨"openai", "gpt-4o"⟩),
    .advance 1, .advance 1, .wait 10, .advance 0, .cleanup]

theorem oneActor_handedOver :
    Along step Ok (start 2 10 300) handedOver ∧ (handedOver.foldl step (start 2 10 300)).OneActor :=
  have hok : Along step Ok (start 2 10 300) handedOver := by decide +kernel
  ⟨hok, oneActor_of_along 2 10 300 handedOver hok⟩

/-- Both have a permit, both miss the second look and both make an actor. -/
def madeTwice : List ExecutorEvent :=
  [.call "analyst" none (some ⟨"openai", "gpt-4o"⟩),
    .call "analyst" none (some ⟨"openai", "gpt-4o"⟩), .advance 0, .advance 1, .advance 0,
    .advance 1, .advance 0, .advance 1, .advance 0, .advance 1, .advance 0, .advance 1]

theorem not_oneActor_madeTwice :
    ¬ ∀ (permits maxCached idleTimeout : Nat) (es : List ExecutorEvent),
      (es.foldl step (start permits maxCached idleTimeout)).OneActor := by
  intro h
  have htwo : ∃ c ∈ (madeTwice.foldl step (start 2 10 300)).calls,
      ∃ c' ∈ (madeTwice.foldl step (start 2 10 300)).calls, c.roleId = c'.roleId ∧
        c.model = c'.model ∧ c.Overlaps c' ∧ c.actor = some 0 ∧ c'.actor = some 1 := by
    decide +kernel
  obtain ⟨c, hc, c', hc', hrole, hmodel, hover, ha, ha'⟩ := htwo
  have hsame := (h 2 10 300 madeTwice).shared c hc c' hc' hrole hmodel hover 0 ha 1 ha'
  cases hsame

end Executor

end Pandaria.Comp
