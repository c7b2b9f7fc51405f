import Pandaria.Lib.Table

/-!
# Tables that forget

A table may lose its rows with time, or those that were not used for the longest
time, or keep only what was last asked under a key. Each of the three comes with a
lemma for every operation that says what is found at any key after it.
-/

/-! ## Tables whose rows expire

A row may have a deadline, and from then on it is as if it were not there:
whoever looks sees the rows that are alive. Every operation has one lemma that
says what row is seen at any key after it. -/

namespace Pandaria.Lib

variable {κ β : Type _}

structure Expiring (κ β : Type _) where
  now : Nat
  rows : Table κ (β × Option Nat)

/-- A row with this deadline is still there. -/
def alive (now : Nat) : Option Nat → Bool
  | none => true
  | some deadline => now < deadline

namespace Expiring

def empty : Expiring κ β := { now := 0, rows := .empty }

/-- Time goes by. -/
def wait (m : Expiring κ β) (n : Nat) : Expiring κ β := { m with now := m.now + n }

/-- The keys that are seen and satisfy `p`. -/
def keys (m : Expiring κ β) (p : κ → Bool) : List κ :=
  m.rows.select fun k row => p k && alive m.now row.2

theorem nodup_keys (m : Expiring κ β) (p : κ → Bool) : (m.keys p).Nodup :=
  m.rows.nodup_select _

variable [DecidableEq κ]

/-- The row that is seen, with its deadline. -/
def row? (m : Expiring κ β) (k : κ) : Option (β × Option Nat) :=
  (m.rows.get? k).filter fun row => alive m.now row.2

def get? (m : Expiring κ β) (k : κ) : Option β := (m.row? k).map Prod.fst

def set (m : Expiring κ β) (k : κ) (b : β) (deadline : Option Nat) : Expiring κ β :=
  { m with rows := m.rows.upsert k fun _ => (b, deadline) }

def delete (m : Expiring κ β) (k : κ) : Expiring κ β := { m with rows := m.rows.erase k }

/-- A new deadline for the row of `k`, if there is one. -/
def expireAt (m : Expiring κ β) (k : κ) (deadline : Nat) : Expiring κ β :=
  match m.row? k with
  | some row => m.set k row.1 (some deadline)
  | none => m

variable {m : Expiring κ β} {k : κ}

theorem row?_empty (k : κ) : (empty : Expiring κ β).row? k = none := rfl

theorem row?_set (m : Expiring κ β) (k j : κ) (b : β) (deadline : Option Nat) :
    (m.set k b deadline).row? j =
      if j = k then (if alive m.now deadline then some (b, deadline) else none)
      else m.row? j := by
  rw [row?, set, Table.get?_upsert]
  split
  · rw [Option.filter_some]
  · rfl

theorem row?_delete (m : Expiring κ β) (k j : κ) :
    (m.delete k).row? j = if j = k then none else m.row? j := by
  rw [row?, delete, Table.get?_erase]
  split
  · rfl
  · rfl

theorem row?_expireAt (m : Expiring κ β) (k j : κ) (deadline : Nat) :
    (m.expireAt k deadline).row? j =
      if j = k then
        if m.now < deadline then (m.row? k).map fun row => (row.1, some deadline) else none
      else m.row? j := by
  rw [expireAt]
  split
  · next row hrow =>
      rw [row?_set, hrow]
      simp [alive]
  · next hrow =>
      split
      · next hj =>
          rw [hj, hrow, Option.map_none]
          split <;> rfl
      · rfl

theorem row?_wait (m : Expiring κ β) (n : Nat) (k : κ) :
    (m.wait n).row? k = (m.row? k).filter fun row => alive (m.now + n) row.2 := by
  rw [row?, row?, Option.filter_filter]
  refine congrArg (fun p => (m.rows.get? k).filter p) (funext fun row => ?_)
  -- What is alive later is alive now.
  cases hdeadline : row.2 with
  | none => rfl
  | some deadline =>
      have himp : m.now + n < deadline → m.now < deadline := by omega
      simp only [alive, wait]
      rw [← Bool.decide_and]
      exact decide_eq_decide.mpr ⟨fun h => ⟨himp h, h⟩, And.right⟩

theorem mem_keys {p : κ → Bool} : k ∈ m.keys p ↔ p k = true ∧ (m.row? k).isSome = true := by
  rw [keys, Table.mem_select, row?]
  cases m.rows.get? k with
  | none => simp
  | some row => simp [Option.filter_some]

end Expiring

end Pandaria.Lib

/-! ## Tables in the order of use

A table may keep its rows in the order in which they were last used, the last
one first. Then a use brings a row to the front, and what was not used for the
longest time is at the end. Whatever is done, a lookup is all that a caller can
see of the rest, so every operation has one lemma that says what is found at
any key after it. -/

namespace Pandaria.Lib.Table

variable {κ β : Type _}

/-- The row that has not been used for the longest time. -/
def last? (t : Table κ β) : Option (κ × β) := t.rows.getLast?

/-- The rows that satisfy `p`. -/
def filter (t : Table κ β) (p : κ → β → Bool) : Table κ β :=
  ⟨t.rows.filter fun r => p r.1 r.2, nodup_select t p⟩

variable [DecidableEq κ]

/-- The row of `k` in front, where it has been written. -/
def use (t : Table κ β) (k : κ) (b : β) : Table κ β :=
  ⟨(k, b) :: (t.erase k).rows, by
    rw [List.map_cons, List.nodup_cons]
    refine ⟨fun hk => ?_, (t.erase k).unique⟩
    obtain ⟨r, hr, rfl⟩ := List.mem_map.mp hk
    simpa using (List.mem_filter.mp hr).2⟩

theorem get?_use (t : Table κ β) (k j : κ) (b : β) :
    (t.use k b).get? j = if j = k then some b else t.get? j := by
  by_cases h : j = k
  · rw [if_pos h, h, get?, use, List.find?_cons_of_pos (by simp)]
    rfl
  · have hne : ¬ k = j := fun e => h e.symm
    rw [if_neg h, get?, use, List.find?_cons_of_neg (by simpa using hne)]
    exact (get?_erase t k j).trans (if_neg h)

theorem get?_filter (t : Table κ β) (p : κ → β → Bool) (k : κ) :
    (t.filter p).get? k = (t.get? k).filter (p k) := by
  cases h : t.get? k with
  | none =>
      rw [Option.filter_none]
      cases hf : (t.filter p).get? k with
      | none => rfl
      | some b =>
          have hmem := (List.mem_filter.mp (get?_eq_some.mp hf)).1
          rw [get?_eq_some.mpr hmem] at h
          cases h
  | some b =>
      rw [Option.filter_some]
      split
      · next hp =>
          exact get?_eq_some.mpr (List.mem_filter.mpr ⟨get?_eq_some.mp h, hp⟩)
      · next hp =>
          cases hf : (t.filter p).get? k with
          | none => rfl
          | some b' =>
              obtain ⟨hmem, hp'⟩ := List.mem_filter.mp (get?_eq_some.mp hf)
              rw [get?_eq_some.mpr hmem] at h
              injection h with h
              rw [h] at hp'
              exact absurd hp' hp

theorem get?_last {t : Table κ β} {r : κ × β} (h : t.last? = some r) : t.get? r.1 = some r.2 :=
  get?_eq_some.mpr (List.mem_of_getLast? h)

/-- A row and the others are all the rows. -/
theorem rows_perm_erase {t : Table κ β} {k : κ} {b : β} (h : t.get? k = some b) :
    t.rows.Perm ((k, b) :: (t.erase k).rows) := by
  obtain ⟨before, after, hrows⟩ := List.append_of_mem (get?_eq_some.mp h)
  have hu := t.unique
  rw [hrows, List.map_append, List.map_cons, List.nodup_middle, List.nodup_cons,
    ← List.map_append] at hu
  have hothers : (before ++ after).filter (fun r => r.1 ≠ k) = before ++ after := by
    rw [List.filter_eq_self]
    intro r hr
    have hne : r.1 ≠ k := by
      intro heq
      have hmem : r.1 ∈ (before ++ after).map Prod.fst := List.mem_map_of_mem hr
      rw [heq] at hmem
      exact hu.1 hmem
    exact decide_eq_true hne
  have herase : (t.erase k).rows = before ++ after := by
    show t.rows.filter (fun r => r.1 ≠ k) = before ++ after
    rw [hrows, List.filter_append, List.filter_cons_of_neg (by simp), ← List.filter_append,
      hothers]
  rw [herase, hrows]
  exact List.perm_middle

theorem erase_eq_self {t : Table κ β} {k : κ} (h : t.get? k = none) :
    (t.erase k).rows = t.rows := by
  show t.rows.filter (fun r => r.1 ≠ k) = t.rows
  rw [List.filter_eq_self]
  intro r hr
  have hne : r.1 ≠ k := by
    intro heq
    have hsome : t.get? k = some r.2 := get?_eq_some.mpr (heq ▸ hr)
    rw [hsome] at h
    cases h
  exact decide_eq_true hne

theorem length_erase {t : Table κ β} {k : κ} {b : β} (h : t.get? k = some b) :
    t.rows.length = (t.erase k).rows.length + 1 :=
  (rows_perm_erase h).length_eq

end Pandaria.Lib.Table

/-! ## The last answer under a key

A memo in front of a function that may fail: for each key, the last argument the
function has succeeded on, with its answer. A question is answered from the memo when
it is the same as the one kept under its key, and asked otherwise; a failure is not
kept. What is the same is up to a comparison, and the memo is not noticed when the
function does not tell apart what the comparison does not. -/

namespace Pandaria.Lib

variable {κ α β ε : Type}

abbrev Memo (κ α β : Type) := Table κ (α × β)

namespace Memo

variable [DecidableEq κ]

/-- Ask the function, and keep what it answers. -/
def compute (f : α → Except ε β) (m : Memo κ α β) (k : κ) (a : α) : Except ε β × Memo κ α β :=
  match f a with
  | .ok b => (.ok b, m.upsert k fun _ => (a, b))
  | .error e => (.error e, m)

def ask (same : α → α → Bool) (f : α → Except ε β) (m : Memo κ α β) (k : κ) (a : α) :
    Except ε β × Memo κ α β :=
  match m.get? k with
  | some (kept, b) => if same kept a then (.ok b, m) else compute f m k a
  | none => compute f m k a

/-- Every answer kept is that of the function. -/
def Sound (f : α → Except ε β) (m : Memo κ α β) : Prop :=
  ∀ k a b, m.get? k = some (a, b) → f a = .ok b

variable {same : α → α → Bool} {f : α → Except ε β} {m : Memo κ α β}

theorem sound_empty : Sound f (Table.empty : Memo κ α β) := by
  intro k a b h
  cases h

theorem compute_fst (k : κ) (a : α) : (compute f m k a).1 = f a := by
  rw [compute]
  cases f a with
  | ok b => rfl
  | error e => rfl

theorem Sound.compute (h : Sound f m) (k : κ) (a : α) : Sound f (compute f m k a).2 := by
  rw [Memo.compute]
  cases hf : f a with
  | error e => exact h
  | ok b =>
      intro j a' b' hj
      rw [Table.get?_upsert] at hj
      split at hj
      · injection hj with hj
        injection hj with ha hb
        rw [← ha, ← hb]
        exact hf
      · exact h j a' b' hj

theorem Sound.ask (h : Sound f m) (k : κ) (a : α) : Sound f (ask same f m k a).2 := by
  rw [Memo.ask]
  cases m.get? k with
  | none => exact h.compute k a
  | some kept =>
      show Sound f (if same kept.1 a then (.ok kept.2, m) else Memo.compute f m k a).2
      split
      · exact h
      · exact h.compute k a

/-- A sound memo answers what the function does. -/
theorem Sound.ask_fst (h : Sound f m) (hsame : ∀ a b, same a b = true → f a = f b) (k : κ)
    (a : α) : (Memo.ask same f m k a).1 = f a := by
  rw [Memo.ask]
  cases hkept : m.get? k with
  | none => exact compute_fst k a
  | some kept =>
      show (if same kept.1 a then (.ok kept.2, m) else Memo.compute f m k a).1 = f a
      split
      · next ha =>
          rw [← hsame kept.1 a ha]
          exact (h k kept.1 kept.2 hkept).symm
      · exact compute_fst k a

end Memo

end Pandaria.Lib
