import Pandaria.Agent.Compaction

/-!
# What `findCutPoint` finds

The cut falls on the first user or assistant message, from the boundary on,
that fewer than `keep_recent_tokens` estimated tokens follow. `recentStart`
says this without the walk and without the list of cut points, and
`findCutPoint_index` is the equality of the two. The walk runs backwards with
an accumulator; the fact that carries its induction is that the accumulator is
the estimate of everything behind the current index.
-/

namespace Pandaria.Agent

open Pandaria.Ai Pandaria.Lib

/-! ## Tokens of a suffix -/

theorem totalTokens_drop_of_getElem? {entries : List SessionEntry} {i : Nat} {e : SessionEntry}
    (h : entries[i]? = some e) :
    totalTokens (entries.drop i) = entryTokens e + totalTokens (entries.drop (i + 1)) := by
  obtain ⟨hi, rfl⟩ := List.getElem?_eq_some_iff.mp h
  rw [List.drop_eq_getElem_cons hi, totalTokens, List.map_cons, List.sum_cons, totalTokens]

theorem totalTokens_drop_le (entries : List SessionEntry) {i j : Nat} (hij : i ≤ j) :
    totalTokens (entries.drop j) ≤ totalTokens (entries.drop i) := by
  have h : entries.drop i = (entries.drop i).take (j - i) ++ entries.drop j := by
    conv_lhs => rw [← List.take_append_drop (j - i) (entries.drop i)]
    rw [List.drop_drop, Nat.add_sub_cancel' hij]
  rw [h]
  simp [totalTokens]

/-! ## The walk -/

/-- An entry the walk counts and can stop at. -/
def isMessage : SessionEntry → Bool
  | .message .. => true
  | .compaction .. => false

theorem isMessage_of_isCutEntry {e : SessionEntry} (h : isCutEntry e = true) :
    isMessage e = true := by
  cases e with
  | message => rfl
  | compaction => simp [isCutEntry] at h

/-- Only a message counts. -/
theorem totalTokens_drop_of_not_message {entries : List SessionEntry} {n : Nat}
    (hn : n < entries.length) (h : (entries[n]?).any isMessage = false) :
    totalTokens (entries.drop (n + 1)) = totalTokens (entries.drop n) := by
  have hget : entries[n]? = some entries[n] := List.getElem?_eq_getElem hn
  rw [hget] at h
  rw [totalTokens_drop_of_getElem? hget]
  cases he : entries[n] with
  | message id m =>
      rw [he] at h
      cases h
  | compaction => simp [entryTokens, SessionEntry.message?]

/-- One step of the walk. The accumulator stands for what is behind the index. -/
theorem walkBack_succ (entries : List SessionEntry) (start keep : Nat) {n : Nat}
    (hn : n < entries.length) :
    walkBack entries start keep (n + 1) (totalTokens (entries.drop (n + 1))) =
      if n < start then none
      else if (entries[n]?).any isMessage = true ∧ keep ≤ totalTokens (entries.drop n) then some n
      else walkBack entries start keep n (totalTokens (entries.drop n)) := by
  have hget : entries[n]? = some entries[n] := List.getElem?_eq_getElem hn
  have hdrop := totalTokens_drop_of_getElem? hget
  rw [walkBack, hget]
  cases he : entries[n] with
  | message id m =>
      rw [he] at hdrop
      have hacc : totalTokens (entries.drop (n + 1)) + estimateTokens m =
          totalTokens (entries.drop n) := by
        rw [hdrop, Nat.add_comm]
        rfl
      simp only [hacc]
      refine if_congr Iff.rfl rfl (if_congr ?_ rfl rfl)
      exact (and_iff_right rfl).symm
  | compaction id summary fk tokens details ext ts =>
      have hacc := totalTokens_drop_of_not_message hn (by rw [hget, he]; rfl)
      simp only [hacc]
      refine if_congr Iff.rfl rfl (if_neg ?_).symm
      rintro ⟨hf, -⟩
      cases hf

theorem walkBack_none {entries : List SessionEntry} {start keep n : Nat} (hn : n ≤ entries.length)
    (h : walkBack entries start keep n (totalTokens (entries.drop n)) = none) {j : Nat}
    (hs : start ≤ j) (hj : j < n) (hm : (entries[j]?).any isMessage = true) :
    totalTokens (entries.drop j) < keep := by
  induction n with
  | zero => omega
  | succ n ih =>
      rw [walkBack_succ entries start keep hn, if_neg (by omega)] at h
      split at h
      · cases h
      · next hgo =>
          rcases Nat.lt_succ_iff_lt_or_eq.mp hj with hjn | rfl
          · exact ih (by omega) h hjn
          · exact Nat.lt_of_not_le fun hle => hgo ⟨hm, hle⟩

/-- Behind the index the walk stops at, too few tokens stand at every entry
that some message still follows. -/
theorem walkBack_some {entries : List SessionEntry} {start keep n i : Nat}
    (hn : n ≤ entries.length)
    (h : walkBack entries start keep n (totalTokens (entries.drop n)) = some i) :
    i < n ∧ keep ≤ totalTokens (entries.drop i) ∧
      ∀ j, i < j → j < n → totalTokens (entries.drop j) < keep ∨
        totalTokens (entries.drop j) = totalTokens (entries.drop n) ∧
          ∀ k, j ≤ k → k < n → (entries[k]?).any isMessage = false := by
  induction n with
  | zero => cases h
  | succ n ih =>
      rw [walkBack_succ entries start keep hn] at h
      split at h
      · cases h
      · split at h
        · next hstop =>
            injection h with h
            subst h
            exact ⟨Nat.lt_succ_self n, hstop.2, fun j h1 h2 => by omega⟩
        · next hgo =>
            obtain ⟨h1, h2, h3⟩ := ih (by omega) h
            refine ⟨by omega, h2, fun j hij hj => ?_⟩
            cases hm : (entries[n]?).any isMessage with
            | true =>
                have hlt : totalTokens (entries.drop n) < keep :=
                  Nat.lt_of_not_le fun hle => hgo ⟨hm, hle⟩
                rcases Nat.lt_succ_iff_lt_or_eq.mp hj with hjn | rfl
                · rcases h3 j hij hjn with h4 | ⟨h4, -⟩
                  · exact .inl h4
                  · exact .inl (h4 ▸ hlt)
                · exact .inl hlt
            | false =>
                rw [totalTokens_drop_of_not_message hn hm]
                rcases Nat.lt_succ_iff_lt_or_eq.mp hj with hjn | rfl
                · rcases h3 j hij hjn with h4 | ⟨h4, h5⟩
                  · exact .inl h4
                  · refine .inr ⟨h4, fun k hjk hk => ?_⟩
                    rcases Nat.lt_succ_iff_lt_or_eq.mp hk with hkn | rfl
                    · exact h5 k hjk hkn
                    · exact hm
                · exact .inr ⟨rfl, fun k hjk hk => by rwa [show k = j by omega]⟩

/-! ## The cut and the turn it splits -/

theorem mem_findValidCutPoints {entries : List SessionEntry} {start stop k : Nat} :
    k ∈ findValidCutPoints entries start stop ↔
      start ≤ k ∧ k < stop ∧ (entries[k]?).any isCutEntry = true := by
  rw [findValidCutPoints, List.mem_filter, List.mem_range'_1]
  constructor
  · rintro ⟨⟨h1, h2⟩, h3⟩
    exact ⟨h1, by omega, h3⟩
  · rintro ⟨h1, h2, h3⟩
    exact ⟨⟨h1, by omega⟩, h3⟩

theorem findTurnStartIndex_some {entries : List SessionEntry} {k start t : Nat} (hk : start ≤ k)
    (h : findTurnStartIndex entries k start = some t) : start ≤ t ∧ t ≤ k := by
  have hmem := List.mem_range'_1.mp (List.mem_reverse.mp (List.mem_of_find?_eq_some h))
  omega

/-- The cut at an index of the history. -/
def cutPointAt (entries : List SessionEntry) (start k : Nat) : CutPoint :=
  { firstKeptEntryIndex := k
    turnStartIndex :=
      if (entries[k]?).any isUserEntry then none else findTurnStartIndex entries k start
    isSplitTurn := !(entries[k]?).any isUserEntry &&
      (if (entries[k]?).any isUserEntry then none
        else findTurnStartIndex entries k start).isSome }

/-- What a cut is: the start where there is no cut point, and otherwise at one. -/
theorem findCutPoint_cases (entries : List SessionEntry) (start stop keep : Nat) :
    (findValidCutPoints entries start stop = [] ∧
      findCutPoint entries start stop keep = ⟨start, none, false⟩) ∨
    ∃ k ∈ findValidCutPoints entries start stop,
      findCutPoint entries start stop keep = cutPointAt entries start k := by
  rw [findCutPoint]
  cases hpoints : findValidCutPoints entries start stop with
  | nil => exact .inl ⟨rfl, rfl⟩
  | cons first more =>
      refine .inr ⟨_, ?_, rfl⟩
      cases walkBack entries start keep stop 0 with
      | none => exact List.mem_cons_self
      | some i =>
          cases hf : (first :: more).find? fun cp => decide (i ≤ cp) with
          | none =>
              simp only [hf, Option.getD_none]
              exact List.mem_cons_self
          | some k =>
              simp only [hf, Option.getD_some]
              exact List.mem_of_find?_eq_some hf

/-- The cut lies in the history, behind the boundary. -/
theorem findCutPoint_le (entries : List SessionEntry) {start stop : Nat} (keep : Nat)
    (hs : start < stop) :
    start ≤ (findCutPoint entries start stop keep).firstKeptEntryIndex ∧
      (findCutPoint entries start stop keep).firstKeptEntryIndex < stop := by
  obtain ⟨-, h⟩ | ⟨k, hk, h⟩ := findCutPoint_cases entries start stop keep
  · rw [h]
    exact ⟨Nat.le_refl start, hs⟩
  · rw [h]
    obtain ⟨h1, h2, -⟩ := mem_findValidCutPoints.mp hk
    exact ⟨h1, h2⟩

theorem isCutEntry_findCutPoint {entries : List SessionEntry} {start stop : Nat} (keep : Nat)
    (hpoints : findValidCutPoints entries start stop ≠ []) :
    (entries[(findCutPoint entries start stop keep).firstKeptEntryIndex]?).any isCutEntry =
      true := by
  obtain ⟨hnil, -⟩ | ⟨k, hk, h⟩ := findCutPoint_cases entries start stop keep
  · exact absurd hnil hpoints
  · rw [h]
    exact (mem_findValidCutPoints.mp hk).2.2

/-- A split turn begins between the boundary and the cut. -/
theorem turnStart_of_isSplitTurn {entries : List SessionEntry} {start stop keep : Nat}
    (h : (findCutPoint entries start stop keep).isSplitTurn = true) :
    ∃ t, (findCutPoint entries start stop keep).turnStartIndex = some t ∧ start ≤ t ∧
      t ≤ (findCutPoint entries start stop keep).firstKeptEntryIndex := by
  obtain ⟨-, hcut⟩ | ⟨k, hk, hcut⟩ := findCutPoint_cases entries start stop keep
  · rw [hcut] at h
    cases h
  · rw [hcut] at h ⊢
    simp only [cutPointAt, Bool.and_eq_true, Bool.not_eq_true'] at h ⊢
    obtain ⟨huser, hsome⟩ := h
    rw [huser, if_neg Bool.false_ne_true] at hsome
    obtain ⟨t, ht⟩ := Option.isSome_iff_exists.mp hsome
    obtain ⟨h1, h2⟩ := findTurnStartIndex_some (mem_findValidCutPoints.mp hk).1 ht
    refine ⟨t, ?_, h1, h2⟩
    rw [huser, if_neg Bool.false_ne_true]
    exact ht

/-! ## The recent messages -/

/-- A user or assistant message that fewer than `keep` tokens follow. The last
entry is one even for `keep = 0`. -/
def isRecentStart (entries : List SessionEntry) (keep k : Nat) : Bool :=
  (entries[k]?).any isCutEntry &&
    (decide (totalTokens (entries.drop (k + 1)) < keep) || decide (k + 1 = entries.length))

def recentStart (entries : List SessionEntry) (start keep : Nat) : Option Nat :=
  (List.range' start (entries.length - start)).find? (isRecentStart entries keep)

theorem find?_congr_of_mem {α : Type _} {p q : α → Bool} {l : List α}
    (h : ∀ x ∈ l, p x = q x) : l.find? p = l.find? q := by
  induction l with
  | nil => rfl
  | cons x xs ih =>
      rw [List.find?_cons, List.find?_cons, h x (by simp), ih fun y hy => h y (by simp [hy])]

theorem any_isMessage_of_any_isCutEntry {e : Option SessionEntry}
    (h : e.any isCutEntry = true) : e.any isMessage = true := by
  cases e with
  | none => cases h
  | some e => exact isMessage_of_isCutEntry h

/-- Where the walk stopped, the cut entries from there on are the recent ones. -/
theorem isRecentStart_of_walkBack_some {entries : List SessionEntry} {start keep i k : Nat}
    (hlast : (entries[entries.length - 1]?).any isMessage = true)
    (hw : walkBack entries start keep entries.length 0 = some i) (hk : k < entries.length) :
    isRecentStart entries keep k = ((entries[k]?).any isCutEntry && decide (i ≤ k)) := by
  obtain ⟨hi, hge, hlt⟩ := walkBack_some (Nat.le_refl _) (by simpa [totalTokens] using hw)
  rw [isRecentStart]
  congr 1
  rw [← Bool.decide_or, decide_eq_decide]
  constructor
  · rintro (h | h)
    · by_contra hik
      have := totalTokens_drop_le entries (show k + 1 ≤ i by omega)
      omega
    · omega
  · intro hik
    by_cases hend : k + 1 = entries.length
    · exact .inr hend
    · left
      rcases hlt (k + 1) (by omega) (by omega) with h | ⟨-, h⟩
      · exact h
      · rw [h (entries.length - 1) (by omega) (by omega)] at hlast
        cases hlast

/-- When it did not stop, all cut entries are. -/
theorem isRecentStart_of_walkBack_none {entries : List SessionEntry} {start keep k : Nat}
    (hw : walkBack entries start keep entries.length 0 = none) (hs : start ≤ k)
    (hk : k < entries.length) :
    isRecentStart entries keep k = (entries[k]?).any isCutEntry := by
  rw [isRecentStart]
  cases hc : (entries[k]?).any isCutEntry with
  | false => rfl
  | true =>
      have h := walkBack_none (Nat.le_refl _) (by simpa [totalTokens] using hw) hs hk
        (any_isMessage_of_any_isCutEntry hc)
      have hle := totalTokens_drop_le entries (show k ≤ k + 1 by omega)
      simp [show totalTokens (entries.drop (k + 1)) < keep by omega]

/-- The cut falls on the recent start, when there is one. -/
theorem findCutPoint_index {entries : List SessionEntry} {start keep k : Nat}
    (hlast : (entries[entries.length - 1]?).any isMessage = true)
    (hk : recentStart entries start keep = some k) :
    (findCutPoint entries start entries.length keep).firstKeptEntryIndex = k := by
  have hrange : ∀ j ∈ List.range' start (entries.length - start), start ≤ j ∧ j < entries.length := by
    intro j hj
    have := List.mem_range'_1.mp hj
    omega
  rw [findCutPoint]
  cases hw : walkBack entries start keep entries.length 0 with
  | none =>
      have hfind : recentStart entries start keep =
          (findValidCutPoints entries start entries.length).head? := by
        rw [findValidCutPoints, List.head?_filter]
        exact find?_congr_of_mem fun j hj =>
          isRecentStart_of_walkBack_none hw (hrange j hj).1 (hrange j hj).2
      split
      · next heq => rw [hfind, heq] at hk; cases hk
      · next first more heq =>
          rw [hfind, heq] at hk
          injection hk
  | some i =>
      have hfind : recentStart entries start keep =
          (findValidCutPoints entries start entries.length).find? fun cp => decide (i ≤ cp) := by
        rw [findValidCutPoints, List.find?_filter]
        refine find?_congr_of_mem fun j hj => ?_
        rw [isRecentStart_of_walkBack_some hlast hw (hrange j hj).2, Bool.decide_and]
        simp
      split
      · next heq => rw [hfind, heq] at hk; cases hk
      · next first more heq =>
          rw [hfind, heq] at hk
          simp only [hk, Option.getD_some]

end Pandaria.Agent
