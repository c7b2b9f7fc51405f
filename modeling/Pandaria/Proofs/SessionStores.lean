import Pandaria.Storage.Store

/-!
# Both stores against the map they are for

Both are simulations. For PostgreSQL the rows are the pairs, and all there is
to see to is that the server takes what it is given. For Redis the pairs have
to be found again in flat keys: a row is where its pair's key says as long as
no other pair that is alive has the same key, and the index of a tenant names
every session that is alive, but goes on naming those that have expired.
-/

namespace Pandaria.Storage

open Pandaria.Lib

variable {ε ω ν : Type _}

/-! ## The keys -/

namespace RedisSessionStore

/-- The two kinds of keys differ in their tenth character. -/
theorem sessionKey_ne_tenantIndexKey (tenantId sessionId tenantId' : String) :
    sessionKey tenantId sessionId ≠ tenantIndexKey tenantId' := by
  unfold sessionKey tenantIndexKey
  rw [ne_eq, ← String.toList_inj]
  intro h
  simp only [String.toList_append, List.append_assoc] at h
  have hchar := congrArg (fun chars => chars[9]?) h
  rw [List.getElem?_append_left (by decide), List.getElem?_append_left (by decide)] at hchar
  exact absurd hchar (by decide)

theorem tenantIndexKey_inj {tenantId tenantId' : String}
    (h : tenantIndexKey tenantId = tenantIndexKey tenantId') : tenantId = tenantId' := by
  unfold tenantIndexKey at h
  exact (String.append_right_inj _).mp ((String.append_left_inj _).mp h)

/-- The key of a pair. -/
def pairKey (pair : String × String) : String := sessionKey pair.1 pair.2

end RedisSessionStore

/-! ## What the commands do -/

namespace Redis

variable {s : Redis ω} {key j : String} {ids : Members}

/-- The key is that of a set with these members, which never expires. -/
def Indexed (s : Redis ω) (key : String) (ids : Members) : Prop :=
  s.row? key = if ids.val = [] then none else some (.set ids, none)

theorem Indexed.smembers (h : s.Indexed key ids) : s.smembers key = some ids := by
  rw [Redis.smembers, Expiring.get?, h]
  by_cases hids : ids.val = []
  · rw [if_pos hids]
    exact congrArg some (Subtype.ext hids.symm)
  · rw [if_neg hids]
    rfl

theorem Indexed.setMembers (h : s.Indexed key ids) (ids' : Members) :
    (s.setMembers key ids').Indexed key ids' := by
  have hdeadline : (s.row? key).bind Prod.snd = none := by
    rw [h]
    split <;> rfl
  rw [Indexed, Redis.setMembers]
  split
  · rw [Expiring.row?_delete, if_pos rfl]
  · rw [Expiring.row?_set, if_pos rfl, hdeadline]
    rfl

theorem row?_setMembers_of_ne (s : Redis ω) (ids : Members) (h : j ≠ key) :
    (s.setMembers key ids).row? j = s.row? j := by
  rw [Redis.setMembers]
  split
  · rw [Expiring.row?_delete, if_neg h]
  · rw [Expiring.row?_set, if_neg h]

theorem now_setMembers (s : Redis ω) (key : String) (ids : Members) :
    (s.setMembers key ids).now = s.now := by
  rw [Redis.setMembers]
  split <;> rfl

theorem now_expire (s : Redis ω) (key : String) (seconds : Int) :
    (s.expire key seconds).now = s.now := by
  rw [Redis.expire]
  split
  · rfl
  · rw [Expiring.expireAt]
    split <;> rfl

/-- A string with a time to live. Without any left it is not there at all. -/
theorem row?_expire_setString (s : Redis ω) (key : String) (value : ω) (seconds : Int)
    (j : String) :
    ((s.setString key value).expire key seconds).row? j =
      if j = key then
        if s.now < s.now + seconds.toNat then
          some (.string value, some (s.now + seconds.toNat)) else none
      else s.row? j := by
  have hset : ∀ j, (s.setString key value).row? j =
      if j = key then some (.string value, none) else s.row? j :=
    fun j => Expiring.row?_set s key j (.string value) none
  rw [Redis.expire]
  split
  · next hle =>
      have hzero : seconds.toNat = 0 := Int.toNat_of_nonpos hle
      rw [Expiring.row?_delete, hset, hzero, Nat.add_zero]
      split
      · exact (if_neg (Nat.lt_irrefl _)).symm
      · rfl
  · rw [Expiring.row?_expireAt, hset, hset, if_pos rfl]
    split <;> rfl

end Redis

/-! ## Redis -/

namespace RedisSessionStore

variable {store : RedisSessionStore ε ω} {s : Redis ω} {sessions : Sessions ε}
  {tenantId sessionId : String}

/-- When a session that is written now expires. -/
def deadline (store : RedisSessionStore ε ω) (now : Nat) : Option Nat :=
  some (now + store.ttl.toNat)

/-- No other pair that is alive has the key of this one. -/
def Alone (sessions : Sessions ε) (tenantId sessionId : String) : Prop :=
  ∀ pair ∈ sessions.keys fun _ => true,
    pairKey pair = sessionKey tenantId sessionId → pair = (tenantId, sessionId)

/-- The pair of a call has its key to itself, and an index that is listed names
no session that has expired. -/
def Ok (state : Redis ω × Sessions ε) : StoreOp ε → Prop
  | .saveSession tenantId sessionId _ | .appendEntries tenantId sessionId _
  | .loadSession tenantId sessionId | .deleteSession tenantId sessionId =>
      Alone state.2 tenantId sessionId
  | .listSessions tenantId =>
      ∀ ids ∈ state.1.smembers (tenantIndexKey tenantId), ∀ sessionId ∈ ids.val,
        (state.2.row? (tenantId, sessionId)).isSome = true
  | .wait _ => True

/-- How the keyspace holds the sessions. -/
structure Holds (store : RedisSessionStore ε ω) (s : Redis ω) (sessions : Sessions ε) :
    Prop where
  now : s.now = sessions.now
  /-- What is alive is under its key. -/
  held : ∀ pair row, sessions.row? pair = some row →
    s.row? (pairKey pair) = some (.string (store.codec.encode row.1), row.2)
  /-- And what is under a key is alive. -/
  source : ∀ pair, s.row? (pairKey pair) ≠ none →
    ∃ pair', pairKey pair' = pairKey pair ∧ (sessions.row? pair').isSome = true
  distinct : ∀ pair pair', (sessions.row? pair).isSome = true →
    (sessions.row? pair').isSome = true → pairKey pair = pairKey pair' → pair = pair'
  index : ∀ tenantId, ∃ ids, s.Indexed (tenantIndexKey tenantId) ids ∧
    ∀ sessionId, (sessions.row? (tenantId, sessionId)).isSome = true → sessionId ∈ ids.val

theorem Alone.eq (h : Alone sessions tenantId sessionId) {pair : String × String}
    (halive : (sessions.row? pair).isSome = true)
    (hkey : pairKey pair = sessionKey tenantId sessionId) : pair = (tenantId, sessionId) :=
  h pair (Expiring.mem_keys.mpr ⟨rfl, halive⟩) hkey

/-- What a key holds is what its pair has. -/
theorem Holds.row? (h : Holds store s sessions) (halone : Alone sessions tenantId sessionId) :
    s.row? (sessionKey tenantId sessionId) =
      (sessions.row? (tenantId, sessionId)).map fun row =>
        (.string (store.codec.encode row.1), row.2) := by
  cases hrow : sessions.row? (tenantId, sessionId) with
  | some row => exact h.held (tenantId, sessionId) row hrow
  | none =>
      by_contra hne
      obtain ⟨pair, hkey, halive⟩ := h.source (tenantId, sessionId) hne
      rw [halone.eq halive hkey, hrow] at halive
      cases halive

theorem Holds.load (h : Holds store s sessions) (halone : Alone sessions tenantId sessionId) :
    store.loadSession s tenantId sessionId =
      .entries ((sessions.get? (tenantId, sessionId)).getD []) := by
  rw [loadSession, Redis.get, Expiring.get?, h.row? halone, Expiring.get?]
  cases sessions.row? (tenantId, sessionId) with
  | none => rfl
  | some row =>
      simp only [Option.map_some, store.codec.decode_encode]
      rfl

/-- A write to one pair: its row is under its key, the index of its tenant has
changed accordingly, and nothing else has. -/
theorem Holds.write {s' : Redis ω} {sessions' : Sessions ε} (h : Holds store s sessions)
    (halone : Alone sessions tenantId sessionId) (hnow : s'.now = sessions'.now)
    (hrow : s'.row? (sessionKey tenantId sessionId) =
      (sessions'.row? (tenantId, sessionId)).map fun row =>
        (.string (store.codec.encode row.1), row.2))
    (hothers : ∀ pair, pair ≠ (tenantId, sessionId) → sessions'.row? pair = sessions.row? pair)
    (hrows : ∀ key, key ≠ sessionKey tenantId sessionId → key ≠ tenantIndexKey tenantId →
      s'.row? key = s.row? key)
    (hindex : ∃ ids, s'.Indexed (tenantIndexKey tenantId) ids ∧
      ∀ id, (sessions'.row? (tenantId, id)).isSome = true → id ∈ ids.val) :
    Holds store s' sessions' := by
  have hkeys : ∀ pair, pairKey pair ≠ sessionKey tenantId sessionId →
      s'.row? (pairKey pair) = s.row? (pairKey pair) :=
    fun pair hne => hrows _ hne (sessionKey_ne_tenantIndexKey _ _ _)
  -- Another pair that is alive has another key.
  have hapart : ∀ pair, pair ≠ (tenantId, sessionId) → (sessions.row? pair).isSome = true →
      pairKey pair ≠ sessionKey tenantId sessionId :=
    fun pair hne halive hkey => hne (halone.eq halive hkey)
  refine ⟨hnow, fun pair row hpair => ?_, fun pair hne => ?_, fun p p' hp hp' hkey => ?_,
    fun t => ?_⟩
  · by_cases hsame : pair = (tenantId, sessionId)
    · rw [hsame] at hpair ⊢
      rw [pairKey, hrow, hpair]
      rfl
    · rw [hothers pair hsame] at hpair
      rw [hkeys pair (hapart pair hsame (by rw [hpair]; rfl))]
      exact h.held pair row hpair
  · by_cases hkey : pairKey pair = sessionKey tenantId sessionId
    · refine ⟨(tenantId, sessionId), hkey.symm, ?_⟩
      rw [hkey, hrow] at hne
      cases hrow' : sessions'.row? (tenantId, sessionId) with
      | none =>
          rw [hrow'] at hne
          exact absurd rfl hne
      | some row => rfl
    · rw [hkeys pair hkey] at hne
      obtain ⟨pair', hkey', halive⟩ := h.source pair hne
      refine ⟨pair', hkey', ?_⟩
      rwa [hothers pair']
      intro hsame
      rw [hsame] at hkey'
      exact hkey hkey'.symm
  · by_cases hsame : p = (tenantId, sessionId)
    · by_cases hsame' : p' = (tenantId, sessionId)
      · rw [hsame, hsame']
      · rw [hothers p' hsame'] at hp'
        rw [hsame] at hkey
        exact absurd hkey.symm (hapart p' hsame' hp')
    · rw [hothers p hsame] at hp
      by_cases hsame' : p' = (tenantId, sessionId)
      · rw [hsame'] at hkey
        exact absurd hkey (hapart p hsame hp)
      · rw [hothers p' hsame'] at hp'
        exact h.distinct p p' hp hp' hkey
  · by_cases ht : t = tenantId
    · rw [ht]
      exact hindex
    · obtain ⟨ids, hids, hall⟩ := h.index t
      refine ⟨ids, ?_, fun id halive => ?_⟩
      · rw [Redis.Indexed, hrows _ (sessionKey_ne_tenantIndexKey _ _ _).symm
          fun hkey => ht (tenantIndexKey_inj hkey)]
        exact hids
      · rw [hothers (t, id) fun hpair => ht (congrArg Prod.fst hpair)] at halive
        exact hall id halive

theorem holds_empty (store : RedisSessionStore ε ω) : Holds store .empty .empty :=
  { now := rfl
    held := fun _ _ h => absurd h (by rw [Expiring.row?_empty]; exact (Option.some_ne_none _).symm)
    source := fun _ h => absurd (Expiring.row?_empty _) h
    distinct := fun _ _ h => absurd h (by rw [Expiring.row?_empty]; exact Bool.noConfusion)
    index := fun _ => ⟨.empty, rfl, fun _ h => absurd h
      (by rw [Expiring.row?_empty]; exact Bool.noConfusion)⟩ }

theorem Holds.save (h : Holds store s sessions) (halone : Alone sessions tenantId sessionId)
    (entries : List ε) :
    Holds store (store.saveSession s tenantId sessionId entries).1
        (sessions.set (tenantId, sessionId) entries (store.deadline sessions.now)) ∧
      (store.saveSession s tenantId sessionId entries).2.Agrees .done := by
  obtain ⟨ids, hids, hall⟩ := h.index tenantId
  let key := sessionKey tenantId sessionId
  let s₁ := (s.setString key (store.codec.encode entries)).expire key store.ttl
  have hrows : ∀ j, s₁.row? j = _ :=
    Redis.row?_expire_setString s key (store.codec.encode entries) store.ttl
  have hids₁ : s₁.Indexed (tenantIndexKey tenantId) ids := by
    rw [Redis.Indexed, hrows, if_neg (sessionKey_ne_tenantIndexKey _ _ _).symm]
    exact hids
  let s₂ := s₁.setMembers (tenantIndexKey tenantId) (ids.insert sessionId)
  have hsadd : s₁.sadd (tenantIndexKey tenantId) sessionId = some s₂ := by
    rw [Redis.sadd, hids₁.smembers]
    rfl
  have hsave : store.saveSession s tenantId sessionId entries = (s₂, .done) := by
    have hstep : ((s.setString (sessionKey tenantId sessionId) (store.codec.encode entries)).expire
        (sessionKey tenantId sessionId) store.ttl).sadd (tenantIndexKey tenantId) sessionId =
          some s₂ := hsadd
    rw [saveSession]
    simp only [hstep]
  rw [hsave]
  refine ⟨h.write halone ?_ ?_ (fun pair hne => ?_) (fun j hne hne' => ?_) ?_, rfl⟩
  · exact ((Redis.now_setMembers ..).trans (Redis.now_expire ..)).trans h.now
  · rw [Redis.row?_setMembers_of_ne _ _ (sessionKey_ne_tenantIndexKey _ _ _), hrows, if_pos rfl,
      Expiring.row?_set, if_pos rfl, deadline, alive, h.now]
    by_cases hlive : sessions.now < sessions.now + store.ttl.toNat
    · rw [if_pos hlive, if_pos (decide_eq_true hlive)]
      rfl
    · rw [if_neg hlive, if_neg (by simpa using hlive)]
      rfl
  · rw [Expiring.row?_set, if_neg hne]
  · rw [Redis.row?_setMembers_of_ne _ _ hne', hrows, if_neg hne]
  · refine ⟨ids.insert sessionId, hids₁.setMembers _, fun id halive => ?_⟩
    by_cases hid : id = sessionId
    · rw [hid]
      exact List.mem_insert_self
    · refine List.mem_insert_of_mem (hall id ?_)
      rwa [Expiring.row?_set, if_neg fun hpair => hid (congrArg Prod.snd hpair)] at halive

theorem Holds.delete (h : Holds store s sessions) (halone : Alone sessions tenantId sessionId) :
    Holds store (deleteSession s tenantId sessionId : Redis ω × Reply ε).1
        (sessions.delete (tenantId, sessionId)) ∧
      (deleteSession s tenantId sessionId : Redis ω × Reply ε).2.Agrees .done := by
  obtain ⟨ids, hids, hall⟩ := h.index tenantId
  let s₁ := s.delete (sessionKey tenantId sessionId)
  have hrows : ∀ j, s₁.row? j = if j = sessionKey tenantId sessionId then none else s.row? j :=
    Expiring.row?_delete s (sessionKey tenantId sessionId)
  have hids₁ : Redis.Indexed s₁ (tenantIndexKey tenantId) ids := by
    rw [Redis.Indexed, hrows, if_neg (sessionKey_ne_tenantIndexKey _ _ _).symm]
    exact hids
  let s₂ := Redis.setMembers s₁ (tenantIndexKey tenantId) (ids.erase sessionId)
  have hsrem : Redis.srem s₁ (tenantIndexKey tenantId) sessionId = some s₂ := by
    rw [Redis.srem, hids₁.smembers]
    rfl
  have hdelete : deleteSession s tenantId sessionId = (s₂, (.done : Reply ε)) := by
    have hstep : Redis.srem (s.delete (sessionKey tenantId sessionId)) (tenantIndexKey tenantId)
        sessionId = some s₂ := hsrem
    rw [deleteSession]
    simp only [hstep]
  rw [hdelete]
  refine ⟨h.write halone ?_ ?_ (fun pair hne => ?_) (fun j hne hne' => ?_) ?_, rfl⟩
  · exact (Redis.now_setMembers ..).trans h.now
  · rw [Redis.row?_setMembers_of_ne _ _ (sessionKey_ne_tenantIndexKey _ _ _), hrows, if_pos rfl,
      Expiring.row?_delete, if_pos rfl]
    rfl
  · rw [Expiring.row?_delete, if_neg hne]
  · rw [Redis.row?_setMembers_of_ne _ _ hne', hrows, if_neg hne]
  · refine ⟨ids.erase sessionId, hids₁.setMembers _, fun id halive => ?_⟩
    rw [Expiring.row?_delete] at halive
    by_cases hid : id = sessionId
    · rw [if_pos (by rw [hid])] at halive
      cases halive
    · rw [if_neg fun hpair => hid (congrArg Prod.snd hpair)] at halive
      exact (List.mem_erase_of_ne hid).mpr (hall id halive)

/-- A session that is listed, and not one more or less, is alive. -/
theorem Holds.list (h : Holds store s sessions)
    (hlive : ∀ ids ∈ s.smembers (tenantIndexKey tenantId), ∀ sessionId ∈ ids.val,
      (sessions.row? (tenantId, sessionId)).isSome = true) :
    (listSessions s tenantId : Reply ε).Agrees
      (.sessions ((sessions.keys fun pair => pair.1 = tenantId).map Prod.snd)) := by
  obtain ⟨ids, hids, hall⟩ := h.index tenantId
  rw [listSessions, hids.smembers]
  have hnodup : ((sessions.keys fun pair => pair.1 = tenantId).map Prod.snd).Nodup := by
    refine List.Nodup.map_on (fun p hp p' hp' hsnd => ?_) (Expiring.nodup_keys ..)
    have hfst := of_decide_eq_true (Expiring.mem_keys.mp hp).1
    have hfst' := of_decide_eq_true (Expiring.mem_keys.mp hp').1
    exact Prod.ext (hfst.trans hfst'.symm) hsnd
  refine (List.perm_ext_iff_of_nodup ids.property hnodup).mpr fun id => ?_
  rw [List.mem_map]
  constructor
  · intro hid
    exact ⟨(tenantId, id), Expiring.mem_keys.mpr
      ⟨decide_eq_true rfl, hlive ids (hids.smembers) id hid⟩, rfl⟩
  · rintro ⟨⟨t, id'⟩, hmem, rfl⟩
    obtain ⟨ht, halive⟩ := Expiring.mem_keys.mp hmem
    rw [show t = tenantId from of_decide_eq_true ht] at halive
    exact hall id' halive

theorem Holds.wait (h : Holds store s sessions) (seconds : Nat) :
    Holds store (s.wait seconds) (sessions.wait seconds) := by
  have hlater : ∀ pair, ((sessions.wait seconds).row? pair).isSome = true →
      (sessions.row? pair).isSome = true := by
    intro pair halive
    rw [Expiring.row?_wait] at halive
    obtain ⟨row, hrow⟩ := Option.isSome_iff_exists.mp halive
    exact Option.isSome_iff_exists.mpr ⟨row, (Option.filter_eq_some_iff.mp hrow).1⟩
  refine ⟨congrArg (· + seconds) h.now, fun pair row hrow => ?_, fun pair hne => ?_,
    fun p p' hp hp' hkey => h.distinct p p' (hlater p hp) (hlater p' hp') hkey, fun t => ?_⟩
  · rw [Expiring.row?_wait, Option.filter_eq_some_iff] at hrow
    rw [Expiring.row?_wait, h.held pair row hrow.1, h.now, Option.filter_some, if_pos hrow.2]
  · rw [Expiring.row?_wait] at hne
    have hthere : s.row? (pairKey pair) ≠ none := by
      intro hnone
      rw [hnone] at hne
      exact hne rfl
    obtain ⟨pair', hkey, halive⟩ := h.source pair hthere
    refine ⟨pair', hkey, ?_⟩
    obtain ⟨row, hrow⟩ := Option.isSome_iff_exists.mp halive
    rw [← hkey, h.held pair' row hrow, h.now, Option.filter_some] at hne
    rw [Expiring.row?_wait, hrow, Option.filter_some]
    split at hne
    · next hlive => rw [if_pos hlive]; rfl
    · exact absurd rfl hne
  · obtain ⟨ids, hids, hall⟩ := h.index t
    refine ⟨ids, ?_, fun id halive => hall id (hlater _ halive)⟩
    rw [Redis.Indexed, Expiring.row?_wait, hids]
    split <;> rfl

theorem holds_step (h : Holds store s sessions) (op : StoreOp ε) (hok : Ok (s, sessions) op) :
    Holds store (store.step s op).1 (sessions.step store.deadline op).1 ∧
      (store.step s op).2.Agrees (sessions.step store.deadline op).2 := by
  cases op with
  | saveSession tenantId sessionId entries => exact h.save hok entries
  | appendEntries tenantId sessionId newEntries =>
      have hload := h.load hok
      have hsave := h.save hok ((sessions.get? (tenantId, sessionId)).getD [] ++ newEntries)
      rw [step, appendEntries, hload]
      exact hsave
  | loadSession tenantId sessionId => exact ⟨h, by rw [step, h.load hok]; rfl⟩
  | deleteSession tenantId sessionId => exact h.delete hok
  | listSessions tenantId => exact ⟨h, h.list hok⟩
  | wait seconds => exact ⟨h.wait seconds, rfl⟩

end RedisSessionStore

/-! ## PostgreSQL -/

/-- An array is read back entry by entry. -/
theorem Codec.mapM_decode (codec : Codec ε ν) (entries : List ε) :
    (entries.map codec.encode).mapM codec.decode = some entries := by
  induction entries with
  | nil => rfl
  | cons e es ih =>
      rw [List.map_cons, List.mapM_cons, codec.decode_encode, ih]
      rfl

namespace PgSessionStore

variable {store : PgSessionStore ε ν} {s : Pg ν} {sessions : Sessions ε}
  {tenantId sessionId : String}

/-- The server takes what the call gives it. -/
def Ok (store : PgSessionStore ε ν) : StoreOp ε → Prop
  | .saveSession tenantId sessionId entries | .appendEntries tenantId sessionId entries =>
      store.binds tenantId sessionId entries = true
  | .loadSession tenantId sessionId | .deleteSession tenantId sessionId =>
      (isText tenantId && isText sessionId) = true
  | .listSessions tenantId => isText tenantId = true
  | .wait _ => True

/-- How the table holds the sessions, none of which expires. -/
structure Holds (store : PgSessionStore ε ν) (s : Pg ν) (sessions : Sessions ε) : Prop where
  rows : ∀ pair, (s.sessions.get? pair).map SessionRow.entries =
    (sessions.get? pair).map (List.map store.codec.encode)
  kept : ∀ pair row, sessions.row? pair = some row → row.2 = none

theorem get?_set (sessions : Sessions ε) (pair pair' : String × String) (entries : List ε) :
    (sessions.set pair entries none).get? pair' =
      if pair' = pair then some entries else sessions.get? pair' := by
  rw [Expiring.get?, Expiring.row?_set]
  split
  · rfl
  · rfl

/-- A statement that writes the entries of one pair. -/
theorem Holds.upsert (h : Holds store s sessions) {f : List ν → List ν} {new : List ν}
    {entries : List ε} (hnew : sessions.get? (tenantId, sessionId) = none →
      new = entries.map store.codec.encode)
    (hthere : ∀ old, sessions.get? (tenantId, sessionId) = some old →
      f (old.map store.codec.encode) = entries.map store.codec.encode) :
    Holds store (s.upsert tenantId sessionId f new)
      (sessions.set (tenantId, sessionId) entries none) := by
  refine ⟨fun pair => ?_, fun pair row hrow => ?_⟩
  · rw [Pg.upsert, Table.get?_upsert, get?_set]
    by_cases hpair : pair = (tenantId, sessionId)
    · rw [if_pos hpair, if_pos hpair]
      have hrow := h.rows (tenantId, sessionId)
      cases hold : sessions.get? (tenantId, sessionId) with
      | none =>
          rw [hold, Option.map_none, Option.map_eq_none_iff] at hrow
          rw [hrow]
          exact congrArg some (hnew hold)
      | some old =>
          rw [hold, Option.map_some, Option.map_eq_some_iff] at hrow
          obtain ⟨row, hget, hentries⟩ := hrow
          rw [hget]
          show some (f row.entries) = some (entries.map store.codec.encode)
          rw [hentries, hthere old hold]
    · rw [if_neg hpair, if_neg hpair]
      exact h.rows pair
  · rw [Expiring.row?_set] at hrow
    split at hrow
    · injection hrow with hrow
      rw [← hrow]
    · exact h.kept pair row hrow

theorem Holds.load (h : Holds store s sessions)
    (hok : (isText tenantId && isText sessionId) = true) :
    store.loadSession s tenantId sessionId =
      .entries ((sessions.get? (tenantId, sessionId)).getD []) := by
  have hrow := h.rows (tenantId, sessionId)
  rw [loadSession, if_pos hok]
  cases hget : sessions.get? (tenantId, sessionId) with
  | none =>
      rw [hget, Option.map_none, Option.map_eq_none_iff] at hrow
      rw [hrow]
      rfl
  | some entries =>
      rw [hget, Option.map_some, Option.map_eq_some_iff] at hrow
      obtain ⟨row, hget', hentries⟩ := hrow
      rw [hget']
      simp only [hentries, store.codec.mapM_decode]
      rfl

theorem Holds.delete (h : Holds store s sessions) :
    Holds store { s with sessions := s.sessions.erase (tenantId, sessionId) }
      (sessions.delete (tenantId, sessionId)) := by
  refine ⟨fun pair => ?_, fun pair row hrow => ?_⟩
  · rw [Table.get?_erase, Expiring.get?, Expiring.row?_delete]
    split
    · rfl
    · exact h.rows pair
  · rw [Expiring.row?_delete] at hrow
    split at hrow
    · cases hrow
    · exact h.kept pair row hrow

theorem Holds.list (h : Holds store s sessions) (tenantId : String) :
    (s.listSessions tenantId).Perm
      ((sessions.keys fun pair => pair.1 = tenantId).map Prod.snd) := by
  have hselect : (s.listSessions tenantId).Perm
      ((s.sessions.select fun pair _ => pair.1 = tenantId).map Prod.snd) := by
    rw [Table.select, List.map_map]
    exact (List.mergeSort_perm _ _).map _
  refine hselect.trans (List.Perm.map _ (Table.select_perm fun pair => ?_))
  rw [show pair ∈ Table.select sessions.rows _ ↔ _ from Expiring.mem_keys, Table.mem_select]
  have hrow : (s.sessions.get? pair).isSome = (sessions.row? pair).isSome := by
    have hsome := congrArg Option.isSome (h.rows pair)
    rwa [Option.isSome_map, Option.isSome_map, Expiring.get?, Option.isSome_map] at hsome
  rw [← hrow, Option.isSome_iff_exists]
  constructor
  · rintro ⟨row, hget, ht⟩
    exact ⟨ht, row, hget⟩
  · rintro ⟨ht, row, hget⟩
    exact ⟨row, hget, ht⟩

theorem Holds.wait (h : Holds store s sessions) (seconds : Nat) :
    Holds store { s with now := s.now + seconds } (sessions.wait seconds) := by
  have hrows : ∀ pair, (sessions.wait seconds).row? pair = sessions.row? pair := by
    intro pair
    rw [Expiring.row?_wait]
    cases hrow : sessions.row? pair with
    | none => rfl
    | some row =>
        rw [Option.filter_some, h.kept pair row hrow]
        rfl
  refine ⟨fun pair => ?_, fun pair row hrow => h.kept pair row ?_⟩
  · rw [Expiring.get?, hrows]
    exact h.rows pair
  · rwa [hrows] at hrow

theorem holds_step (h : Holds store s sessions) (op : StoreOp ε) (hok : store.Ok op) :
    Holds store (store.step s op).1 (sessions.step (fun _ => none) op).1 ∧
      (store.step s op).2.Agrees (sessions.step (fun _ => none) op).2 := by
  cases op with
  | saveSession tenantId sessionId entries =>
      have hbinds : store.binds tenantId sessionId entries = true := hok
      rw [step, saveSession, if_pos hbinds]
      have hwritten : Holds store
          (s.upsert tenantId sessionId (fun _ => entries.map store.codec.encode)
            (entries.map store.codec.encode))
          (sessions.set (tenantId, sessionId) entries none) :=
        h.upsert (fun _ => rfl) fun _ _ => rfl
      exact ⟨hwritten, rfl⟩
  | appendEntries tenantId sessionId newEntries =>
      have hbinds : store.binds tenantId sessionId newEntries = true := hok
      rw [step, appendEntries, if_pos hbinds]
      have hwritten : Holds store
          (s.upsert tenantId sessionId (· ++ newEntries.map store.codec.encode)
            (newEntries.map store.codec.encode))
          (sessions.set (tenantId, sessionId)
            ((sessions.get? (tenantId, sessionId)).getD [] ++ newEntries) none) := by
        refine h.upsert (fun hnone => ?_) fun old hold => ?_
        · rw [hnone]
          rfl
        · rw [hold, Option.getD_some, List.map_append]
      exact ⟨hwritten, rfl⟩
  | loadSession tenantId sessionId => exact ⟨h, by rw [step, h.load hok]; rfl⟩
  | deleteSession tenantId sessionId =>
      have htext : (isText tenantId && isText sessionId) = true := hok
      rw [step, deleteSession, if_pos htext]
      exact ⟨h.delete, rfl⟩
  | listSessions tenantId =>
      have htext : isText tenantId = true := hok
      refine ⟨h, ?_⟩
      rw [step, listSessions, if_pos htext]
      exact h.list tenantId
  | wait seconds => exact ⟨h.wait seconds, rfl⟩

end PgSessionStore

/-! ## Any run -/

/-- The answers of the Redis store are those of the map whose pairs expire
`ttl` after their last write. -/
def RedisSessionStore.Refines (store : RedisSessionStore ε ω) (ops : List (StoreOp ε)) : Prop :=
  List.Forall₂ Reply.Agrees (answers store.step .empty ops)
    (answers (Sessions.step store.deadline) .empty ops)

/-- And those of the PostgreSQL store are those of the map that keeps all. -/
def PgSessionStore.Refines (store : PgSessionStore ε ν) (ops : List (StoreOp ε)) : Prop :=
  List.Forall₂ Reply.Agrees (answers store.step .empty ops)
    (answers (Sessions.step fun _ => none) .empty ops)

/-- Along any calls, and however much time goes by between them, both stores
are maps from pairs to lists of entries: Redis as long as no call meets the key
of another pair that is alive and no index that is listed names a session that
has expired, PostgreSQL as long as the server takes what it is given. -/
theorem refines_of_along_ok (redis : RedisSessionStore ε ω) (pg : PgSessionStore ε ν)
    (ops : List (StoreOp ε)) :
    (Along (both redis.step (Sessions.step redis.deadline)) RedisSessionStore.Ok
      (.empty, .empty) ops → redis.Refines ops) ∧
    ((∀ op ∈ ops, pg.Ok op) → pg.Refines ops) := by
  constructor
  · intro hok
    exact forall₂_answers (fun s t op h hop => RedisSessionStore.holds_step h op hop)
      (RedisSessionStore.holds_empty redis) hok
  · intro hok
    have hempty : PgSessionStore.Holds pg .empty .empty :=
      ⟨fun _ => rfl, fun _ _ h => absurd h (by
        rw [Expiring.row?_empty]
        exact (Option.some_ne_none _).symm)⟩
    refine forall₂_answers (R := pg.Holds) (fun s t op h hop => ?_) hempty
      (along_of_forall_mem hok _)
    exact PgSessionStore.holds_step h op hop

namespace RedisSessionStore

instance (sessions : Sessions ε) (tenantId sessionId : String) :
    Decidable (Alone sessions tenantId sessionId) :=
  inferInstanceAs (Decidable (∀ pair ∈ sessions.keys fun _ => true, _ → _))

instance (state : Redis ω × Sessions ε) : ∀ op, Decidable (Ok state op)
  | .saveSession .. | .appendEntries .. | .loadSession .. | .deleteSession .. =>
      inferInstanceAs (Decidable (Alone ..))
  | .listSessions tenantId =>
      inferInstanceAs (Decidable (∀ ids ∈ state.1.smembers (tenantIndexKey tenantId),
        ∀ sessionId ∈ ids.val, _))
  | .wait _ => inferInstanceAs (Decidable True)

instance [DecidableEq ε] (store : RedisSessionStore ε ω) (ops : List (StoreOp ε)) :
    Decidable (store.Refines ops) :=
  inferInstanceAs (Decidable (List.Forall₂ ..))

end RedisSessionStore

instance (store : PgSessionStore ε ν) : ∀ op, Decidable (store.Ok op)
  | .saveSession .. | .appendEntries .. | .loadSession .. | .deleteSession ..
  | .listSessions _ => inferInstanceAs (Decidable (_ = true))
  | .wait _ => inferInstanceAs (Decidable True)

/-! ## Two pairs with one key, and an index that outlives its sessions -/

/-- A Redis that keeps numbers for entries. -/
def sevenDays : RedisSessionStore Nat (List Nat) := .new (.id _)

/-- The default store after eight days, with a session of the first day and one
of the last. -/
def oneWeek : List (StoreOp Nat) :=
  [.saveSession "acme" "s1" [1], .appendEntries "acme" "s1" [2], .loadSession "acme" "s1",
    .listSessions "acme", .wait 604799, .loadSession "acme" "s1", .appendEntries "beta" "s1" [3],
    .wait 1, .loadSession "acme" "s1", .deleteSession "acme" "s1", .listSessions "acme",
    .listSessions "beta"]

/-- A PostgreSQL that keeps numbers for entries. -/
def plainPg : PgSessionStore Nat Nat := { codec := .id _, accepts := fun _ => true }

theorem refines_oneWeek : sevenDays.Refines oneWeek ∧ plainPg.Refines oneWeek := by
  obtain ⟨hredis, hpg⟩ := refines_of_along_ok sevenDays plainPg oneWeek
  refine ⟨hredis (by decide +kernel), hpg ?_⟩
  decide +kernel

/-- The session `c` of the tenant `a:b` is read as `b:c` of the tenant `a`. And
a week after its last write a session is listed that has no data any more. -/
theorem not_refines_shared_or_expired :
    ¬ sevenDays.Refines [.saveSession "a:b" "c" [1], .loadSession "a" "b:c"] ∧
      ¬ sevenDays.Refines [.saveSession "acme" "s1" [1], .wait 604800, .listSessions "acme"] := by
  constructor
  · decide +kernel
  · decide +kernel

end Pandaria.Storage
