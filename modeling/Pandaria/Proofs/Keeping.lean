import Pandaria.Agent.Call
import Pandaria.Proofs.CutPoint

/-!
# What a cut keeps for its budget

`tailReaches` says of an index whether a message behind it, and what follows that,
already makes up the budget. It is less often so for a later index and for a larger
budget, and the walk stops before a cut point exactly when it is so
(`findCutPoint_eq`). The cut is the first cut point of which it is not. When it is so
of the last cut point, the cut falls back to the first, and everything is kept.
-/

namespace Pandaria.Agent

open Pandaria.Ai Pandaria.Lib

/-- A message behind the index `k` has `keep` tokens from itself on. -/
def tailReaches (entries : List SessionEntry) (keep k : Nat) : Bool :=
  (entries.drop (k + 1)).any isMessage && decide (keep ≤ totalTokens (entries.drop (k + 1)))

variable {entries : List SessionEntry} {start keep keep' i k : Nat}

theorem tailReaches_iff :
    tailReaches entries keep k = true ↔
      (entries.drop (k + 1)).any isMessage = true ∧
        keep ≤ totalTokens (entries.drop (k + 1)) := by
  rw [tailReaches, Bool.and_eq_true, decide_eq_true_eq]

theorem tailReaches_anti_keep (hle : keep ≤ keep') (h : tailReaches entries keep' k = true) :
    tailReaches entries keep k = true := by
  obtain ⟨hmessage, htokens⟩ := tailReaches_iff.mp h
  exact tailReaches_iff.mpr ⟨hmessage, by omega⟩

theorem tailReaches_anti (hle : i ≤ k) (h : tailReaches entries keep k = true) :
    tailReaches entries keep i = true := by
  obtain ⟨hmessage, htokens⟩ := tailReaches_iff.mp h
  have hmore := totalTokens_drop_le entries (show i + 1 ≤ k + 1 by omega)
  refine tailReaches_iff.mpr ⟨?_, by omega⟩
  obtain ⟨e, he, hm⟩ := List.any_eq_true.mp hmessage
  have hsub : (entries.drop (k + 1)).Sublist (entries.drop (i + 1)) :=
    List.drop_sublist_drop_left entries (by omega)
  exact List.any_eq_true.mpr ⟨e, hsub.subset he, hm⟩

/-- The tokens of a list are those from its first message on. -/
theorem exists_first_message (h : entries.any isMessage = true) :
    ∃ j, (entries[j]?).any isMessage = true ∧
      totalTokens (entries.drop j) = totalTokens entries := by
  induction entries with
  | nil => cases h
  | cons e rest ih =>
      cases e with
      | message id m => exact ⟨0, rfl, rfl⟩
      | compaction id summary fk tokens details ext ts =>
          obtain ⟨j, hj, htokens⟩ := ih h
          refine ⟨j + 1, hj, ?_⟩
          rw [List.drop_succ_cons, htokens, totalTokens, totalTokens, List.map_cons,
            List.sum_cons]
          exact (Nat.zero_add _).symm

theorem any_drop_of_getElem? {j n : Nat} (hn : n ≤ j)
    (h : (entries[j]?).any isMessage = true) : (entries.drop n).any isMessage = true := by
  cases hget : entries[j]? with
  | none =>
      rw [hget] at h
      cases h
  | some e =>
      rw [hget] at h
      have hdrop : (entries.drop n)[j - n]? = some e := by
        rw [List.getElem?_drop, Nat.add_sub_cancel' hn, hget]
      exact List.any_eq_true.mpr ⟨e, List.mem_of_getElem? hdrop, h⟩

theorem lt_length_of_any {p : SessionEntry → Bool} (h : (entries[i]?).any p = true) :
    i < entries.length := by
  by_contra hge
  rw [List.getElem?_eq_none (by omega)] at h
  cases h

/-- A message stands behind `k`, and what it has behind it counts. -/
theorem exists_message_of_tailReaches (h : tailReaches entries keep k = true) :
    ∃ j, k < j ∧ j < entries.length ∧ (entries[j]?).any isMessage = true ∧
      keep ≤ totalTokens (entries.drop j) := by
  obtain ⟨hany, htokens⟩ := tailReaches_iff.mp h
  obtain ⟨j, hj, hsame⟩ := exists_first_message hany
  rw [List.getElem?_drop] at hj
  rw [List.drop_drop] at hsame
  exact ⟨k + 1 + j, by omega, lt_length_of_any hj, hj, by omega⟩

/-! ## Where the walk stops -/

theorem isMessage_of_walkBack {n accumulated : Nat}
    (h : walkBack entries start keep n accumulated = some i) :
    (entries[i]?).any isMessage = true := by
  induction n generalizing accumulated with
  | zero => cases h
  | succ n ih =>
      rw [walkBack] at h
      split at h
      · cases h
      · split at h
        · next id m hget =>
            split at h
            · injection h with h
              rw [← h, hget]
              rfl
            · exact ih h
        · exact ih h

/-- The walk stops before an index exactly when the messages behind it reach. -/
theorem tailReaches_of_walkBack_some
    (h : walkBack entries start keep entries.length 0 = some i) :
    tailReaches entries keep k = decide (k < i) := by
  have hmessage := isMessage_of_walkBack h
  obtain ⟨hi, hge, hlt⟩ := walkBack_some (Nat.le_refl _) (by simpa [totalTokens] using h)
  by_cases hk : k < i
  · rw [decide_eq_true hk]
    have htokens := totalTokens_drop_le entries (show k + 1 ≤ i by omega)
    exact tailReaches_iff.mpr ⟨any_drop_of_getElem? hk hmessage, by omega⟩
  · rw [decide_eq_false hk]
    by_contra hreaches
    obtain ⟨j, hkj, hj, hany, htokens⟩ :=
      exists_message_of_tailReaches (Bool.eq_true_of_not_eq_false hreaches)
    obtain hfew | ⟨-, hnone⟩ := hlt j (by omega) hj
    · omega
    · rw [hnone j (Nat.le_refl j) hj] at hany
      cases hany

theorem tailReaches_of_walkBack_none
    (h : walkBack entries start keep entries.length 0 = none) (hs : start ≤ k) :
    tailReaches entries keep k = false := by
  by_contra hreaches
  obtain ⟨j, hkj, hj, hany, htokens⟩ :=
    exists_message_of_tailReaches (Bool.eq_true_of_not_eq_false hreaches)
  have hfew := walkBack_none (Nat.le_refl _) (by simpa [totalTokens] using h) (by omega) hj hany
  omega

/-- The cut is the first cut point whose tail does not reach, and the first of all when
every tail does. -/
theorem findCutPoint_eq {first : Nat} {more : List Nat}
    (hpoints : findValidCutPoints entries start entries.length = first :: more) :
    (findCutPoint entries start entries.length keep).firstKeptEntryIndex =
      ((first :: more).find? fun p => !tailReaches entries keep p).getD first := by
  rw [findCutPoint, hpoints]
  cases hwalk : walkBack entries start keep entries.length 0 with
  | none =>
      have hfirst : first ∈ findValidCutPoints entries start entries.length :=
        hpoints ▸ List.mem_cons_self
      have hreaches := tailReaches_of_walkBack_none hwalk (mem_findValidCutPoints.mp hfirst).1
      rw [List.find?_cons_of_pos (by rw [hreaches]; rfl)]
      rfl
  | some i =>
      have hpred : (fun p => !tailReaches entries keep p) = fun p => decide (i ≤ p) := by
        funext p
        rw [tailReaches_of_walkBack_some hwalk, ← decide_not, decide_eq_decide]
        exact Nat.not_lt
      rw [hpred]

/-! ## The first of the cut points that are good enough -/

theorem findValidCutPoints_sorted (entries : List SessionEntry) (start stop : Nat) :
    (findValidCutPoints entries start stop).Pairwise (· < ·) :=
  (List.pairwise_lt_range' ..).filter _

theorem le_of_find?_sorted {l : List Nat} {q : Nat → Bool} {c : Nat} (hl : l.Pairwise (· < ·))
    (h : l.find? q = some c) {p : Nat} (hp : p ∈ l) (hq : q p = true) : c ≤ p := by
  obtain ⟨-, before, after, rfl, hbefore⟩ := List.find?_eq_some_iff_append.mp h
  obtain hp | hp := List.mem_append.mp hp
  · have hno := hbefore p hp
    rw [hq] at hno
    cases hno
  · obtain rfl | hp := List.mem_cons.mp hp
    · exact Nat.le_refl p
    · have hafter := (List.pairwise_append.mp hl).2.1
      exact Nat.le_of_lt ((List.pairwise_cons.mp hafter).1 p hp)

theorem le_getLast_of_sorted {l : List Nat} (hl : l.Pairwise (· < ·)) (hne : l ≠ []) {p : Nat}
    (hp : p ∈ l) : p ≤ l.getLast hne := by
  rw [← List.dropLast_append_getLast hne] at hl hp
  obtain hp | hp := List.mem_append.mp hp
  · exact Nat.le_of_lt ((List.pairwise_append.mp hl).2.2 p hp _ (List.mem_singleton_self _))
  · exact Nat.le_of_eq (List.mem_singleton.mp hp)

/-- Either the tail of the last cut point reaches, and the cut is the first of all; or
the cut is the first one whose tail does not. -/
theorem findCutPoint_falls {first : Nat} {more : List Nat}
    (hpoints : findValidCutPoints entries start entries.length = first :: more) :
    (tailReaches entries keep ((first :: more).getLast (List.cons_ne_nil _ _)) = true ∧
      (findCutPoint entries start entries.length keep).firstKeptEntryIndex = first) ∨
    ∃ c ∈ first :: more, (findCutPoint entries start entries.length keep).firstKeptEntryIndex = c ∧
      tailReaches entries keep ((first :: more).getLast (List.cons_ne_nil _ _)) = false ∧
      tailReaches entries keep c = false ∧
      ∀ p ∈ first :: more, tailReaches entries keep p = false → c ≤ p := by
  have hsorted := findValidCutPoints_sorted entries start entries.length
  rw [hpoints] at hsorted
  rw [findCutPoint_eq hpoints]
  cases hfind : (first :: more).find? fun p => !tailReaches entries keep p with
  | none =>
      have hall := List.find?_eq_none.mp hfind _ (List.getLast_mem (List.cons_ne_nil first more))
      exact .inl ⟨by simpa using hall, rfl⟩
  | some c =>
      have hmem := List.mem_of_find?_eq_some hfind
      have hc : tailReaches entries keep c = false := by simpa using List.find?_some hfind
      refine .inr ⟨c, hmem, rfl, ?_, hc, ?_⟩
      · by_contra hlast
        have hle := le_getLast_of_sorted hsorted (List.cons_ne_nil _ _) hmem
        have hreaches := tailReaches_anti hle (Bool.eq_true_of_not_eq_false hlast)
        rw [hc] at hreaches
        cases hreaches
      · intro p hp hreaches
        exact le_of_find?_sorted hsorted hfind hp (by rw [hreaches]; rfl)

/-! ## Two budgets -/

/-- What is kept for a budget. -/
def kept (entries : List SessionEntry) (start keep : Nat) : List SessionEntry :=
  entries.drop (findCutPoint entries start entries.length keep).firstKeptEntryIndex

/-- No later cut point would have kept enough. -/
def Tight (entries : List SessionEntry) (start keep : Nat) : Prop :=
  ∀ p ∈ findValidCutPoints entries start entries.length,
    (findCutPoint entries start entries.length keep).firstKeptEntryIndex < p →
      totalTokens (entries.drop p) < keep

theorem drop_isSuffix_drop_iff {α : Type} {l : List α} {m n : Nat} (hm : m ≤ l.length) :
    l.drop n <:+ l.drop m ↔ m ≤ n ∨ l.length ≤ n := by
  constructor
  · intro h
    have hlength := h.length_le
    rw [List.length_drop, List.length_drop] at hlength
    omega
  · rintro (hmn | hn)
    · rw [← Nat.sub_add_cancel hmn, Nat.add_comm, ← List.drop_drop]
      exact List.drop_suffix _ _
    · rw [List.drop_eq_nil_of_le hn]
      exact List.nil_suffix

section

variable {first : Nat} {more : List Nat}

theorem kept_isSuffix_iff
    (hpoints : findValidCutPoints entries start entries.length = first :: more) :
    kept entries start keep <:+ kept entries start keep' ↔
      (findCutPoint entries start entries.length keep').firstKeptEntryIndex ≤
        (findCutPoint entries start entries.length keep).firstKeptEntryIndex := by
  have hstart : start < entries.length := by
    have hfirst : first ∈ findValidCutPoints entries start entries.length :=
      hpoints ▸ List.mem_cons_self
    have := mem_findValidCutPoints.mp hfirst
    omega
  have hcut := (findCutPoint_le entries keep hstart).2
  have hcut' := (findCutPoint_le entries keep' hstart).2
  rw [kept, kept, drop_isSuffix_drop_iff (Nat.le_of_lt hcut')]
  omega

theorem first_le_of_mem (hpoints : findValidCutPoints entries start entries.length = first :: more)
    {p : Nat} (hp : p ∈ first :: more) : first ≤ p := by
  have hsorted := findValidCutPoints_sorted entries start entries.length
  rw [hpoints] at hsorted
  obtain rfl | hp := List.mem_cons.mp hp
  · exact Nat.le_refl p
  · exact Nat.le_of_lt ((List.pairwise_cons.mp hsorted).1 p hp)

/-- A larger budget keeps no less, unless only the smaller one falls back. -/
theorem kept_mono_iff (hpoints : findValidCutPoints entries start entries.length = first :: more)
    (hle : keep ≤ keep') :
    kept entries start keep <:+ kept entries start keep' ↔
      ¬ (tailReaches entries keep ((first :: more).getLast (List.cons_ne_nil _ _)) = true ∧
        tailReaches entries keep' ((first :: more).getLast (List.cons_ne_nil _ _)) = false ∧
        tailReaches entries keep' first = true) := by
  rw [kept_isSuffix_iff hpoints]
  obtain ⟨hlast, hcut⟩ | ⟨c, hc, hcut, hlast, hreaches, hleast⟩ :=
    @findCutPoint_falls entries start keep _ _ hpoints
  · obtain ⟨hlast', hcut'⟩ | ⟨c', hc', hcut', hlast', hreaches', hleast'⟩ :=
      @findCutPoint_falls entries start keep' _ _ hpoints
    · rw [hcut, hcut', hlast']
      simp
    · -- The smaller budget has fallen back, the larger one has not.
      rw [hcut, hcut', hlast, hlast']
      constructor
      · rintro hle ⟨-, -, hfirst⟩
        rw [show c' = first from Nat.le_antisymm hle (first_le_of_mem hpoints hc'), hfirst]
          at hreaches'
        cases hreaches'
      · intro hnot
        have hfirst : tailReaches entries keep' first = false :=
          Bool.eq_false_iff.mpr fun h => hnot ⟨rfl, rfl, h⟩
        exact hleast' first List.mem_cons_self hfirst
  · -- What is good enough for the smaller budget is so for the larger one.
    have hgood {p : Nat} (hp : tailReaches entries keep p = false) :
        tailReaches entries keep' p = false :=
      Bool.eq_false_iff.mpr fun h => by
        rw [tailReaches_anti_keep hle h] at hp
        cases hp
    obtain ⟨hlast', -⟩ | ⟨c', -, hcut', -, -, hleast'⟩ :=
      @findCutPoint_falls entries start keep' _ _ hpoints
    · rw [hgood hlast] at hlast'
      cases hlast'
    · rw [hcut, hcut', hlast]
      exact iff_of_true (hleast' c hc (hgood hreaches)) (by simp)

theorem totalTokens_lt_of_tailReaches {p : Nat} (h : tailReaches entries keep k = false)
    (hkp : k < p) (hp : (entries[p]?).any isMessage = true) :
    totalTokens (entries.drop p) < keep := by
  by_contra hge
  have hmore := totalTokens_drop_le entries (show k + 1 ≤ p from hkp)
  rw [tailReaches_iff.mpr ⟨any_drop_of_getElem? hkp hp, by omega⟩] at h
  cases h

/-- A budget is spent, unless it has fallen back past a cut point. -/
theorem tight_iff (hpoints : findValidCutPoints entries start entries.length = first :: more) :
    Tight entries start keep ↔
      tailReaches entries keep ((first :: more).getLast (List.cons_ne_nil _ _)) = false ∨
        more = [] := by
  rw [Tight, hpoints]
  obtain ⟨hlast, hcut⟩ | ⟨c, -, hcut, hlast, hreaches, -⟩ :=
    @findCutPoint_falls entries start keep _ _ hpoints
  · rw [hcut, hlast]
    constructor
    · intro htight
      right
      by_contra hne
      have hmem : (first :: more).getLast (List.cons_ne_nil _ _) ∈ more := by
        rw [List.getLast_cons hne]
        exact List.getLast_mem hne
      have hsorted := findValidCutPoints_sorted entries start entries.length
      rw [hpoints] at hsorted
      have hfew := htight _ (List.mem_cons_of_mem _ hmem) ((List.pairwise_cons.mp hsorted).1 _ hmem)
      obtain ⟨-, htokens⟩ := tailReaches_iff.mp hlast
      have hmore := totalTokens_drop_le entries
        (Nat.le_add_right ((first :: more).getLast (List.cons_ne_nil _ _)) 1)
      omega
    · rintro (h | rfl)
      · cases h
      · intro p hp hlt
        rw [List.mem_singleton.mp hp] at hlt
        omega
  · rw [hcut, hlast]
    refine iff_of_true (fun p hp hlt => ?_) (.inl rfl)
    have hpoint : p ∈ findValidCutPoints entries start entries.length := hpoints ▸ hp
    exact totalTokens_lt_of_tailReaches hreaches hlt
      (any_isMessage_of_any_isCutEntry (mem_findValidCutPoints.mp hpoint).2.2)

end

/-- A larger budget keeps no less exactly when not only the smaller one falls back;
a budget is spent exactly when it does not fall back past a cut point. So both hold
for all budgets exactly when no message follows the last cut point, or there is but
one. -/
theorem cut_keeps_iff (entries : List SessionEntry) (start : Nat)
    (hne : findValidCutPoints entries start entries.length ≠ []) :
    let first := (findValidCutPoints entries start entries.length).head hne
    let last := (findValidCutPoints entries start entries.length).getLast hne
    (∀ keep keep', keep ≤ keep' →
      (kept entries start keep <:+ kept entries start keep' ↔
        ¬ (tailReaches entries keep last = true ∧ tailReaches entries keep' last = false ∧
          tailReaches entries keep' first = true))) ∧
    (∀ keep, Tight entries start keep ↔ tailReaches entries keep last = false ∨
      (findValidCutPoints entries start entries.length).length = 1) ∧
    ((∀ keep keep', keep ≤ keep' → kept entries start keep <:+ kept entries start keep') ∧
        (∀ keep, Tight entries start keep) ↔
      (entries.drop (last + 1)).any isMessage = false ∨
        (findValidCutPoints entries start entries.length).length = 1) := by
  generalize hpoints : findValidCutPoints entries start entries.length = points at hne ⊢
  cases points with
  | nil => exact absurd rfl hne
  | cons first more =>
      have hone : (first :: more).length = 1 ↔ more = [] := by simp
      rw [hone]
      have hmono := fun keep keep' => @kept_mono_iff entries start keep keep' first more hpoints
      have htight := fun keep => @tight_iff entries start keep first more hpoints
      refine ⟨hmono, htight, ?_⟩
      constructor
      · rintro ⟨-, hall⟩
        -- With nothing to keep, any message behind the last cut point is enough.
        refine ((htight 0).mp (hall 0)).imp_left fun h => ?_
        rw [tailReaches] at h
        simpa using h
      · rintro (hnone | rfl)
        · have hnever (keep : Nat) :
              tailReaches entries keep ((first :: more).getLast hne) = false := by
            rw [tailReaches, hnone]
            rfl
          refine ⟨fun keep keep' hle => (hmono keep keep' hle).mpr ?_, fun keep => ?_⟩
          · rintro ⟨h, -, -⟩
            rw [hnever] at h
            cases h
          · exact (htight keep).mpr (.inl (hnever keep))
        · refine ⟨fun keep keep' hle => (hmono keep keep' hle).mpr ?_, fun keep => ?_⟩
          · rintro ⟨-, hlast, hfirst⟩
            rw [List.getLast_singleton] at hlast
            rw [hlast] at hfirst
            cases hfirst
          · exact (htight keep).mpr (.inr rfl)

/-- A question, an answer that calls a tool, and a long result. -/
def longResult : List SessionEntry :=
  [.message 1 (userText "find"),
    .message 2 (.assistant (plainReply [.toolCall ⟨"a", "tool", .null, none⟩] .toolUse none)),
    .message 3 (.toolResult ⟨"a", "tool", [.text "0123456789012345678901234567890123456789" none],
      none, false, 0⟩)]

/-- A budget of four tokens is more than spent by the result, and everything is kept;
one of twelve keeps the call with it. -/
theorem not_cut_keeps :
    kept longResult 0 4 = longResult ∧ kept longResult 0 12 = longResult.drop 1 ∧
      ¬ kept longResult 0 4 <:+ kept longResult 0 12 ∧ ¬ Tight longResult 0 4 := by
  have hall : kept longResult 0 4 = longResult := rfl
  have hless : kept longResult 0 12 = longResult.drop 1 := rfl
  refine ⟨hall, hless, ?_, ?_⟩
  · intro h
    rw [hall, hless] at h
    exact absurd h.length_le (by decide)
  · intro h
    exact absurd (h 1 (by decide) (by decide)) (by decide)

/-- Without the result both budgets keep what they should. -/
theorem cut_keeps_answer : kept (longResult.take 2) 0 1 <:+ kept (longResult.take 2) 0 2 :=
  ((cut_keeps_iff (longResult.take 2) 0 (by decide)).2.2.mpr (.inl rfl)).1 1 2 (by decide)

end Pandaria.Agent
