import Pandaria.Agent.Memory
import Pandaria.Lib.Run

/-!
# Sessions that see each other's memories

A session is found again by a text, and found by whatever begins with it. So it
is not the identifiers by themselves that keep two sessions apart but all those
in use at a time: nobody sees another's memories exactly when no session's text
is the beginning of another's. A session `s1` and a session `s10` of the same
tenant are enough to break that, and so are a tenant `a:b` and a tenant `a`.
-/

namespace Pandaria.Agent

open Pandaria.Lib

/-- A call that changes the store. -/
inductive MemoryOp where
  | remember (ctx : MemoryContext) (content : String)
  | forgetSession (ctx : MemoryContext)

def MemoryOp.ctx : MemoryOp → MemoryContext
  | .remember ctx _ | .forgetSession ctx => ctx

/-- A store, with what was remembered and not forgotten since, in order. The
code keeps only the store. -/
structure Memories where
  store : InMemoryStore
  kept : List (MemoryContext × String)

namespace Memories

def start : Memories := { store := .new, kept := [] }

def step (s : Memories) : MemoryOp → Memories
  | .remember ctx content =>
      { store := s.store.remember ctx content
        kept := s.kept ++ [(ctx, content)] }
  | .forgetSession ctx =>
      { store := s.store.forgetSession ctx
        kept := s.kept.filter fun r => r.1 ≠ ctx }

/-- Among the sessions of `U`, whatever a recall meets first, it returns what
was remembered under its own tenant and session; and what is stored is what was
remembered, less what was forgotten. -/
structure Isolated (U : Set MemoryContext) (s : Memories) : Prop where
  recalled : ∀ ctx ∈ U, ∀ query entries, entries.Perm s.store.data.rows →
    ∀ content ∈ InMemoryStore.recall_ entries ctx query, (ctx, content) ∈ s.kept
  stored : s.store.data.all.Perm (s.kept.map Prod.snd)

/-- No session of `U` has a key that begins another's. -/
def PrefixFree (U : Set MemoryContext) : Prop :=
  ∀ p ∈ U, ∀ q ∈ U, p.key.toList <+: q.key.toList → p = q

/-- What was remembered under `ctx`, in order. -/
def contentsOf (s : Memories) (ctx : MemoryContext) : List String :=
  (s.kept.filter fun r => r.1 = ctx).map Prod.snd

/-- Every row is that of a session, and holds what it remembered. -/
structure Sorted (U : Set MemoryContext) (s : Memories) : Prop where
  rows : ∀ key contents, s.store.data.get? key = some contents → ∃ ctx ∈ U, ctx.key = key
  contents : ∀ ctx ∈ U, (s.store.data.get? ctx.key).getD [] = s.contentsOf ctx
  stored : s.store.data.all.Perm (s.kept.map Prod.snd)

theorem PrefixFree.key_inj {U : Set MemoryContext} (h : PrefixFree U) {p q : MemoryContext}
    (hp : p ∈ U) (hq : q ∈ U) (heq : p.key = q.key) : p = q := by
  refine h p hp q hq ?_
  rw [heq]

theorem Sorted.isolated {U : Set MemoryContext} (hfree : PrefixFree U) {s : Memories}
    (h : s.Sorted U) : s.Isolated U := by
  refine ⟨fun ctx hctx query entries hperm content hcontent => ?_, h.stored⟩
  have hfound := (List.mem_filter.mp (List.mem_of_mem_take hcontent)).1
  obtain ⟨⟨key, contents⟩, hrow, hmem⟩ := List.mem_flatMap.mp hfound
  obtain ⟨hrow, hstart⟩ := List.mem_filter.mp hrow
  have hget : s.store.data.get? key = some contents :=
    Table.get?_eq_some.mpr (hperm.subset hrow)
  obtain ⟨owner, howner, hkey⟩ := h.rows key contents hget
  subst hkey
  have heq : ctx = owner := hfree ctx hctx owner howner (of_decide_eq_true hstart)
  subst heq
  have hcontents := h.contents ctx hctx
  rw [hget, Option.getD_some] at hcontents
  rw [hcontents, contentsOf] at hmem
  obtain ⟨⟨ctx', content'⟩, hkept, rfl⟩ := List.mem_map.mp hmem
  obtain ⟨hkept, hsame⟩ := List.mem_filter.mp hkept
  rw [← of_decide_eq_true hsame]
  exact hkept

theorem Sorted.remember {U : Set MemoryContext} (hfree : PrefixFree U) {s : Memories}
    (h : s.Sorted U) {ctx : MemoryContext} (hctx : ctx ∈ U) (content : String) :
    (s.step (.remember ctx content)).Sorted U := by
  have hget : ∀ key, (s.step (.remember ctx content)).store.data.get? key =
      if key = ctx.key then some ((s.store.data.get? ctx.key).getD [] ++ [content])
      else s.store.data.get? key := fun key => Table.get?_push ..
  have hcontents : ∀ other, (s.step (.remember ctx content)).contentsOf other =
      s.contentsOf other ++ if ctx = other then [content] else [] := by
    intro other
    show ((s.kept ++ [(ctx, content)]).filter _).map Prod.snd = _
    rw [List.filter_append, List.map_append, contentsOf]
    split
    next heq => simp [heq]
    next hne => simp [hne]
  refine ⟨fun key contents hrow => ?_, fun other hother => ?_, ?_⟩
  · rw [hget] at hrow
    split at hrow
    next heq => exact ⟨ctx, hctx, heq.symm⟩
    next => exact h.rows key contents hrow
  · rw [hget, hcontents]
    by_cases heq : ctx = other
    · rw [if_pos (congrArg _ heq.symm), if_pos heq, Option.getD_some, h.contents ctx hctx, heq]
    · have hne : other.key ≠ ctx.key :=
        fun hkey => heq (hfree.key_inj hother hctx hkey).symm
      rw [if_neg hne, if_neg heq, List.append_nil]
      exact h.contents other hother
  · refine (Table.all_push ..).trans ?_
    show (content :: s.store.data.all).Perm ((s.kept ++ [(ctx, content)]).map Prod.snd)
    rw [List.map_append]
    exact (h.stored.cons content).trans (List.perm_append_singleton content _).symm

theorem Sorted.forgetSession {U : Set MemoryContext} (hfree : PrefixFree U) {s : Memories}
    (h : s.Sorted U) {ctx : MemoryContext} (hctx : ctx ∈ U) :
    (s.step (.forgetSession ctx)).Sorted U := by
  have hget : ∀ key, (s.step (.forgetSession ctx)).store.data.get? key =
      if key = ctx.key then none else s.store.data.get? key := fun key => Table.get?_erase ..
  refine ⟨fun key contents hrow => ?_, fun other hother => ?_, ?_⟩
  · rw [hget] at hrow
    split at hrow
    next => cases hrow
    next => exact h.rows key contents hrow
  · rw [hget, contentsOf, step, List.filter_filter]
    by_cases heq : other = ctx
    · rw [if_pos (congrArg _ heq), heq]
      have hnone : (s.kept.filter fun r => decide (r.1 = ctx) && decide (r.1 ≠ ctx)) = [] := by
        simp
      rw [hnone]
      rfl
    · have hne : other.key ≠ ctx.key := fun hkey => heq (hfree.key_inj hother hctx hkey)
      rw [if_neg hne, h.contents other hother, contentsOf]
      congr 1
      refine List.filter_congr fun r _ => ?_
      by_cases hr : r.1 = other
      · simp [hr, heq]
      · simp [hr]
  · have hsplit : (s.contentsOf ctx ++ (s.kept.filter fun r => r.1 ≠ ctx).map Prod.snd).Perm
        (s.kept.map Prod.snd) := by
      rw [contentsOf, ← List.map_append]
      refine List.Perm.map _ ?_
      have hparts := List.filter_append_perm (fun r : MemoryContext × String => r.1 = ctx) s.kept
      simpa using hparts
    have hall := (Table.all_erase s.store.data ctx.key).trans (h.stored.trans hsplit.symm)
    rw [h.contents ctx hctx] at hall
    exact (List.perm_append_left_iff _).mp hall

theorem sorted_start (U : Set MemoryContext) : start.Sorted U :=
  ⟨nofun, fun _ _ => rfl, List.Perm.refl _⟩

/-- Over any calls for sessions of `U`, they are isolated from each other
exactly when no key among them begins another. -/
theorem isolated_iff_prefixFree (U : Set MemoryContext) :
    (∀ ops : List MemoryOp, (∀ op ∈ ops, op.ctx ∈ U) → (ops.foldl step start).Isolated U) ↔
      PrefixFree U := by
  constructor
  · intro h p hp q hq hstart
    have hisolated := h [.remember q ""] (by simpa [MemoryOp.ctx] using hq)
    have hmem : "" ∈ InMemoryStore.recall_ [(q.key, [""])] p "" := by
      simp [InMemoryStore.recall_, hstart]
    have hkept := hisolated.recalled p hp "" [(q.key, [""])] (List.Perm.refl _) "" hmem
    exact (Prod.mk.inj (List.mem_singleton.mp hkept)).1
  · intro hfree ops hops
    have hsorted : (ops.foldl step start).Sorted U := by
      refine (along_of_forall_mem hops start).invariant (fun s op hop h => ?_) (sorted_start U)
      cases op with
      | remember ctx content => exact h.remember hfree hop content
      | forgetSession ctx => exact h.forgetSession hfree hop
    exact hsorted.isolated hfree

/-- What is remembered in session `s10` of a tenant is recalled in its session
`s1`; and a tenant `a` that forgets a session `b:c` makes the tenant `a:b`
forget its session `c`. -/
theorem not_isolated_prefix :
    InMemoryStore.recall_ ([.remember ⟨"t1", "s10"⟩ "secret"].foldl step start).store.data.rows
        ⟨"t1", "s1"⟩ "" = ["secret"] ∧
      ([.remember ⟨"a:b", "c"⟩ "secret", .forgetSession ⟨"a", "b:c"⟩].foldl step
        start).store.data.rows = [] ∧
      ¬ ∀ ops : List MemoryOp, (ops.foldl step start).Isolated Set.univ := by
  refine ⟨by decide, by decide, fun h => ?_⟩
  have hkept := (h [.remember ⟨"t1", "s10"⟩ "secret"]).recalled ⟨"t1", "s1"⟩ trivial "" _
    (List.Perm.refl _) "secret" (by decide)
  exact absurd hkept (by decide)

/-- Tenants without a colon, and sessions with identifiers of one length, are
kept apart. -/
theorem prefixFree_of_length {U : Set MemoryContext} {n : Nat}
    (htenant : ∀ ctx ∈ U, ':' ∉ ctx.tenantId.toList)
    (hsession : ∀ ctx ∈ U, ctx.sessionId.toList.length = n) : PrefixFree U := by
  intro p hp q hq hstart
  have hkey : ∀ ctx : MemoryContext,
      ctx.key.toList = ctx.tenantId.toList ++ ':' :: ctx.sessionId.toList := by
    intro ctx
    simp [MemoryContext.key]
  obtain ⟨rest, hrest⟩ := hstart
  rw [hkey, hkey, List.append_assoc] at hrest
  -- Up to its first colon a key is its tenant.
  have htenants : p.tenantId.toList = q.tenantId.toList := by
    rcases List.append_eq_append_iff.mp hrest with ⟨as, hq', has⟩ | ⟨as, hp', has⟩
    · cases as with
      | nil => rw [hq', List.append_nil]
      | cons a as =>
          injection has with ha
          exact absurd (by rw [hq', ← ha]; simp) (htenant q hq)
    · cases as with
      | nil => rw [hp', List.append_nil]
      | cons a as =>
          injection has with ha
          exact absurd (by rw [hp', ← ha]; simp) (htenant p hp)
  rw [htenants, List.cons_append] at hrest
  have hsessions := List.cons.inj (List.append_cancel_left hrest)
  have hlength := congrArg List.length hsessions.2
  rw [List.length_append, hsession p hp, hsession q hq] at hlength
  have hnil : rest = [] := List.eq_nil_of_length_eq_zero (by omega)
  have hsame : p.sessionId.toList = q.sessionId.toList := by
    rw [← hsessions.2, hnil]
    exact (List.append_nil _).symm
  obtain ⟨tenant, session⟩ := p
  obtain ⟨tenant', session'⟩ := q
  rw [MemoryContext.mk.injEq]
  exact ⟨String.toList_inj.mp htenants, String.toList_inj.mp hsame⟩

end Memories

end Pandaria.Agent
