import Pandaria.Gateway.Auth
import Pandaria.Lib.Run
import Pandaria.Lib.Threads

/-!
# Who vouches for a request

A request comes to a route with a context that the identity service has vouched for,
under the token of the request: to the request itself, or to one whose answer had
been in the cache for less than a minute. This holds whatever the other requests
do meanwhile, as the cache is a table whose rows live for a minute: cleaning up,
which drops rows in the middle of everything, cannot be seen by a lookup.
-/

namespace Pandaria.Gateway

open Pandaria.Lib
open Pandaria.Tenant (second)

/-- The identity service has vouched for a context. -/
def Answer.Vouches (a : Answer) (token : String) (ctx : TenantContext) : Prop :=
  a.token = token ∧ ∃ response, a.response = some response ∧ judge response a.time = .ok ctx

namespace AuthRequest

/-- The request carries this token. -/
def Bears (r : AuthRequest) (token : String) : Prop :=
  r.path ≠ "/healthz" ∧ extractBearerToken r.authorization = some token

end AuthRequest

/-- An answer to request `i` itself, until `time`. -/
def Own (answers : List Answer) (i : Nat) (token : String) (ctx : TenantContext) (time : Nat) :
    Prop :=
  ∃ a ∈ answers, a.Vouches token ctx ∧ a.request = i ∧ a.time ≤ time

/-- An answer that was in the cache, for less than a minute. -/
def Recent (answers : List Answer) (token : String) (ctx : TenantContext) (time : Nat) : Prop :=
  ∃ a ∈ answers, a.Vouches token ctx ∧
    ∃ insertedAt, a.time ≤ insertedAt ∧ insertedAt ≤ time ∧ time < insertedAt + 60 * second

def Allowed (answers : List Answer) (i : Nat) (r : AuthRequest) (ctx : TenantContext)
    (since : Nat) : Prop :=
  ∃ token, r.Bears token ∧ (Own answers i token ctx since ∨ Recent answers token ctx since)

/-- What is known of a request where it stands; `asked` counts the answers it
has had. -/
def Sound (answers : List Answer) (clock : Nat) (i : Nat) (r : AuthRequest) (asked : Nat) : Prop :=
  match r.phase with
  | .arrived => asked = 0
  | .counting token | .lookingUp token => r.Bears token ∧ asked = 0
  | .cleaning token now => r.Bears token ∧ asked = 0 ∧ now ≤ clock
  | .asking token attempts | .sleeping token attempts _ =>
      r.Bears token ∧ asked = attempts ∧ attempts ≤ 2
  | .caching token ctx => r.Bears token ∧ asked ≤ 3 ∧ Own answers i token ctx clock
  | .stamped token ctx insertedAt =>
      r.Bears token ∧ asked ≤ 3 ∧ insertedAt ≤ clock ∧ Own answers i token ctx insertedAt
  | .resolving ctx => asked ≤ 3 ∧ ∃ token, r.Bears token ∧ Own answers i token ctx clock
  | .admitted none _ => asked ≤ 3 ∧ r.path = "/healthz"
  | .admitted (some ctx) since => asked ≤ 3 ∧ Allowed answers i r ctx since
  | .refused _ => asked ≤ 3
  | .routed ctx since => asked ≤ 3 ∧ ctx.tenantId ≠ "" ∧ Allowed answers i r ctx since

section mono

variable {answers answers' : List Answer} (hsub : answers ⊆ answers')
include hsub

theorem Own.mono {i : Nat} {token : String} {ctx : TenantContext} {time time' : Nat}
    (h : Own answers i token ctx time) (hle : time ≤ time') : Own answers' i token ctx time' := by
  obtain ⟨a, ha, hvouches, hi, htime⟩ := h
  exact ⟨a, hsub ha, hvouches, hi, by omega⟩

theorem Allowed.mono {i : Nat} {r : AuthRequest} {ctx : TenantContext} {since : Nat}
    (h : Allowed answers i r ctx since) : Allowed answers' i r ctx since := by
  obtain ⟨token, hbears, hown | hrecent⟩ := h
  · exact ⟨token, hbears, .inl (hown.mono hsub (Nat.le_refl _))⟩
  · obtain ⟨a, ha, hrecent⟩ := hrecent
    exact ⟨token, hbears, .inr ⟨a, hsub ha, hrecent⟩⟩

/-- What is known stays known as time goes by and others get answers. -/
theorem Sound.mono {clock clock' i asked : Nat} {r : AuthRequest}
    (h : Sound answers clock i r asked) (hle : clock ≤ clock') :
    Sound answers' clock' i r asked := by
  unfold Sound at h ⊢
  split at h
  · exact h
  · exact h
  · exact h
  · exact ⟨h.1, h.2.1, by omega⟩
  · exact h
  · exact h
  · exact ⟨h.1, h.2.1, h.2.2.mono hsub hle⟩
  · exact ⟨h.1, h.2.1, by omega, h.2.2.2.mono hsub (Nat.le_refl _)⟩
  · obtain ⟨hasked, token, hbears, hown⟩ := h
    exact ⟨hasked, token, hbears, hown.mono hsub hle⟩
  · exact h
  · exact ⟨h.1, h.2.mono hsub⟩
  · exact h
  · exact ⟨h.1, h.2.1, h.2.2.mono hsub⟩

end mono

namespace Middleware

variable {config : RateLimitConfig} {s : Middleware}

/-- The answers to request `i`. -/
def asked (s : Middleware) (i : Nat) : Nat := s.answers.countP fun a => a.request = i

structure Inv (s : Middleware) : Prop where
  now : s.ttl.now = s.clock
  /-- The cache shows the rows that live for a minute. -/
  rows : ∀ token, s.ttl.row? token =
    (s.cached token).map fun e => (e.ctx, some (e.insertedAt + 60 * second))
  entries : ∀ token e, s.entries.get? token = some e → e.insertedAt ≤ s.clock ∧
    ∃ a ∈ s.answers, a.Vouches token e.ctx ∧ a.time ≤ e.insertedAt
  known : ∀ a ∈ s.answers, a.request < s.requests.length
  requests : ∀ i r, s.requests[i]? = some r → Sound s.answers s.clock i r (s.asked i)

theorem fresh_eq (e : CacheEntry) (now : Nat) :
    e.fresh now = alive now (some (e.insertedAt + 60 * second)) := by
  rw [CacheEntry.fresh, alive, second]
  exact decide_eq_decide.mpr (by omega)

/-! ## What each step keeps -/

theorem Inv.new : Inv Middleware.new where
  now := rfl
  rows := fun _ => rfl
  entries := by
    intro token e he
    cases he
  known := by simp [Middleware.new]
  requests := by simp [Middleware.new]

theorem Inv.tick (h : s.Inv) (n : Nat) :
    Inv { s with clock := s.clock + n, ttl := s.ttl.wait n } where
  now := by
    show s.ttl.now + n = s.clock + n
    rw [h.now]
  rows := by
    intro token
    show (s.ttl.wait n).row? token = _
    rw [Expiring.row?_wait, h.rows, h.now]
    simp only [cached]
    cases s.entries.get? token with
    | none => rfl
    | some e =>
        -- what is fresh later is fresh now
        have himp : e.fresh (s.clock + n) = true → e.fresh s.clock = true := by
          simp only [CacheEntry.fresh, decide_eq_true_eq]
          omega
        cases hlater : e.fresh (s.clock + n) with
        | true => simp [Option.filter_some, himp hlater, ← fresh_eq, hlater]
        | false =>
            cases hnow : e.fresh s.clock <;>
              simp [Option.filter_some, hnow, ← fresh_eq, hlater]
  entries := by
    intro token e he
    obtain ⟨hle, hvouched⟩ := h.entries token e he
    exact ⟨Nat.le_add_right_of_le hle, hvouched⟩
  known := h.known
  requests := by
    intro i r hi
    exact (h.requests i r hi).mono (List.Subset.refl _) (Nat.le_add_right _ _)

theorem Inv.arrive (h : s.Inv) (path : String) (authorization : Option String) :
    Inv { s with requests := s.requests ++ [⟨path, authorization, .arrived⟩] } where
  now := h.now
  rows := h.rows
  entries := h.entries
  known := by
    intro a ha
    have hlt := h.known a ha
    rw [List.length_append]
    omega
  requests := by
    intro i r hi
    rcases getElem?_push hi with hold | ⟨hi, hr⟩
    · exact h.requests i r hold
    · -- nobody has answered a request that was not there
      subst hr
      show s.asked i = 0
      rw [asked, List.countP_eq_zero]
      intro a ha
      have hlt := h.known a ha
      simp only [decide_eq_true_eq]
      omega

theorem Inv.goto (h : s.Inv) {i : Nat} {r : AuthRequest} {phase : AuthPhase}
    (hsound : Sound s.answers s.clock i { r with phase := phase } (s.asked i)) :
    (s.goto i r phase).Inv where
  now := h.now
  rows := h.rows
  entries := h.entries
  known := by
    intro a ha
    have hlt := h.known a ha
    rwa [Middleware.goto, List.length_set]
  requests := forall_getElem?_set hsound fun j c _ hj => h.requests j c hj

theorem Inv.insert (h : s.Inv) {token : String} {ctx : TenantContext} {insertedAt i : Nat}
    (hle : insertedAt ≤ s.clock) (hown : Own s.answers i token ctx insertedAt) :
    (s.insert token ctx insertedAt).Inv where
  now := h.now
  rows := by
    intro other
    show (s.ttl.set token ctx (some (insertedAt + 60 * second))).row? other =
      (((s.entries.upsert token fun _ => ⟨ctx, insertedAt⟩).get? other).filter
        fun e => e.fresh s.clock).map fun e => (e.ctx, some (e.insertedAt + 60 * second))
    rw [Expiring.row?_set, Table.get?_upsert, h.now]
    by_cases ht : other = token
    · rw [if_pos ht, if_pos ht, Option.filter_some, ← fresh_eq ⟨ctx, insertedAt⟩]
      cases CacheEntry.fresh ⟨ctx, insertedAt⟩ s.clock <;> rfl
    · rw [if_neg ht, if_neg ht]
      exact h.rows other
  entries := by
    intro other e he
    have he :
        (if other = token then some ⟨ctx, insertedAt⟩ else s.entries.get? other) = some e := by
      rw [← he]
      exact (Table.get?_upsert s.entries token other fun _ => ⟨ctx, insertedAt⟩).symm
    by_cases ht : other = token
    · rw [if_pos ht] at he
      injection he with he
      subst he ht
      obtain ⟨a, ha, hvouches, -, htime⟩ := hown
      exact ⟨hle, a, ha, hvouches, htime⟩
    · rw [if_neg ht] at he
      exact h.entries other e he
  known := h.known
  requests := h.requests

theorem Inv.visit (h : s.Inv) {now : Nat} (hle : now ≤ s.clock) (token : String) :
    (s.visit now token).Inv := by
  rw [Middleware.visit]
  split
  · next e he =>
      split
      · exact h
      · next hold =>
          have hstale : e.fresh s.clock = false := by
            simp only [CacheEntry.retained, decide_eq_true_eq] at hold
            simp only [CacheEntry.fresh, decide_eq_false_iff_not]
            omega
          refine ⟨h.now, ?_, ?_, h.known, h.requests⟩
          · intro other
            rw [h.rows]
            refine congrArg (Option.map _) ?_
            show s.cached other = ((s.entries.erase token).get? other).filter (·.fresh s.clock)
            rw [Table.get?_erase]
            by_cases ht : other = token
            · rw [if_pos ht, ht, cached, he, Option.filter_some, hstale]
              rfl
            · rw [if_neg ht]
              rfl
          · intro other e' he'
            have he' : (if other = token then none else s.entries.get? other) = some e' := by
              rw [← he']
              exact (Table.get?_erase s.entries token other).symm
            by_cases ht : other = token
            · rw [if_pos ht] at he'
              cases he'
            · rw [if_neg ht] at he'
              exact h.entries other e' he'
  · exact h

theorem asked_record_self (s : Middleware) (a : Answer) :
    (s.record a).asked a.request = s.asked a.request + 1 := by
  simp [asked, record]

theorem asked_record_of_ne {a : Answer} {i : Nat} (h : i ≠ a.request) (s : Middleware) :
    (s.record a).asked i = s.asked i := by
  simp [asked, record, h.symm]

/-- A request that asked gets an answer and goes on to `phase`. -/
theorem Inv.answer (h : s.Inv) {i : Nat} {r : AuthRequest} (hi : s.requests[i]? = some r)
    (token : String) (response : Option IntrospectResponse) {phase : AuthPhase}
    (hsound : Sound (s.record ⟨i, token, response, s.clock⟩).answers s.clock i
      { r with phase := phase } (s.asked i + 1)) :
    ((s.record ⟨i, token, response, s.clock⟩).goto i r phase).Inv where
  now := h.now
  rows := h.rows
  entries := by
    intro token e he
    obtain ⟨hle, a, ha, hvouched⟩ := h.entries token e he
    exact ⟨hle, a, List.mem_append_left _ ha, hvouched⟩
  known := by
    intro a ha
    rw [Middleware.goto, List.length_set]
    have hbound : i < s.requests.length := (List.getElem?_eq_some_iff.mp hi).1
    rcases List.mem_append.mp ha with hold | hnew
    · exact h.known a hold
    · rw [List.mem_singleton.mp hnew]
      exact hbound
  requests := by
    refine forall_getElem?_set ?_ fun j c hj hc => ?_
    · show Sound _ _ _ _ ((s.record ⟨i, token, response, s.clock⟩).asked i)
      rw [asked_record_self s ⟨i, token, response, s.clock⟩]
      exact hsound
    · show Sound _ _ _ _ ((s.record ⟨i, token, response, s.clock⟩).asked j)
      rw [asked_record_of_ne hj]
      exact (h.requests j c hc).mono (List.subset_append_left _ _) (Nat.le_refl _)

theorem Inv.proceed (h : s.Inv) {i : Nat} {r : AuthRequest} (hi : s.requests[i]? = some r) :
    (s.proceed i r).Inv := by
  have hr := h.requests i r hi
  rw [Middleware.proceed]
  unfold Sound at hr
  split
  · next hphase =>
      rw [hphase] at hr
      refine h.goto ?_
      rw [enter]
      split
      · next hpath => exact ⟨by omega, hpath⟩
      · next hpath =>
          split
          · next token htoken => exact ⟨⟨hpath, htoken⟩, hr⟩
          · show s.asked i ≤ 3
            omega
  · next token hphase =>
      rw [hphase] at hr
      have h' : Inv { s with counter := s.counter + 1 } :=
        { now := h.now, rows := h.rows, entries := h.entries, known := h.known,
          requests := h.requests }
      refine h'.goto ?_
      split
      · exact ⟨hr.1, hr.2, Nat.le_refl _⟩
      · exact hr
  · next token now hphase =>
      rw [hphase] at hr
      exact h.goto ⟨hr.1, hr.2.1⟩
  · next token hphase =>
      rw [hphase] at hr
      split
      · next e he =>
          obtain ⟨hentry, hfresh⟩ := Option.filter_eq_some_iff.mp he
          obtain ⟨hle, a, ha, hvouches, htime⟩ := h.entries token e hentry
          have hfresh : s.clock < e.insertedAt + 60 * second := by
            simpa [fresh_eq, alive] using hfresh
          have hrecent : Recent s.answers token e.ctx s.clock :=
            ⟨a, ha, hvouches, e.insertedAt, htime, hle, hfresh⟩
          exact h.goto ⟨by omega, token, hr.1, .inr hrecent⟩
      · exact h.goto ⟨hr.1, hr.2, Nat.zero_le _⟩
  · next token attempts wakeAt hphase =>
      rw [hphase] at hr
      split
      · exact h.goto hr
      · exact h
  · next token ctx hphase =>
      rw [hphase] at hr
      exact h.goto ⟨hr.1, hr.2.1, Nat.le_refl _, hr.2.2⟩
  · next token ctx insertedAt hphase =>
      rw [hphase] at hr
      obtain ⟨hbears, hasked, hle, hown⟩ := hr
      have hown' : Own s.answers i token ctx s.clock := hown.mono (List.Subset.refl _) hle
      exact (h.insert hle hown).goto ⟨hasked, token, hbears, hown'⟩
  · next ctx hphase =>
      rw [hphase] at hr
      obtain ⟨hasked, token, hbears, hown⟩ := hr
      exact h.goto ⟨hasked, token, hbears, .inl hown⟩
  · next ctx since hphase =>
      rw [hphase] at hr
      split
      · refine h.goto ?_
        cases ctx <;> exact hr.1
      · exact h
  · exact h
  · exact h
  · exact h

theorem Inv.answered (h : s.Inv) {i : Nat} {r : AuthRequest} (hi : s.requests[i]? = some r)
    {token : String} {attempts : Nat} (hphase : r.phase = .asking token attempts)
    (response : Option IntrospectResponse) :
    ((s.record ⟨i, token, response, s.clock⟩).answered i r token attempts response).Inv := by
  have hr := h.requests i r hi
  unfold Sound at hr
  rw [hphase] at hr
  obtain ⟨hbears, hasked, hle⟩ := hr
  cases response with
  | none =>
      rw [Middleware.answered]
      split
      · exact h.answer hi token none ⟨hbears, by omega, by omega⟩
      · refine h.answer hi token none ?_
        show s.asked i + 1 ≤ 3
        omega
  | some response =>
      rw [Middleware.answered]
      split
      · next ctx hjudge =>
          refine h.answer hi token (some response) ⟨hbears, by omega, ?_⟩
          refine ⟨⟨i, token, some response, s.clock⟩, by simp [record], ?_, rfl, Nat.le_refl _⟩
          exact ⟨rfl, response, rfl, hjudge⟩
      · refine h.answer hi token (some response) ?_
        show s.asked i + 1 ≤ 3
        omega

theorem Inv.step (h : s.Inv) (e : AuthEvent) : (s.step config e).Inv := by
  cases e with
  | tick n => exact h.tick n
  | arrive path authorization => exact h.arrive path authorization
  | step i =>
      rw [Middleware.step]
      split
      · next r hi => exact h.proceed hi
      · exact h
  | visit i token =>
      rw [Middleware.step]
      split
      · next path authorization other now hi =>
          exact h.visit (h.requests i _ hi).2.2 token
      · exact h
  | answer i response =>
      rw [Middleware.step]
      split
      · next r hi =>
          split
          · next token attempts hphase => exact h.answered hi hphase response
          · exact h
      · exact h
  | check i ok =>
      rw [Middleware.step]
      split
      · next r hi =>
          have hr := h.requests i r hi
          unfold Sound at hr
          split
          · next ctx since hphase =>
              rw [hphase] at hr
              split
              · exact h
              · next htenant =>
                  split
                  · exact h.goto ⟨hr.1, htenant, hr.2⟩
                  · exact h.goto hr.1
          · exact h
      · exact h

theorem Inv.run (config : RateLimitConfig) (events : List AuthEvent) :
    (events.foldl (Middleware.step config) Middleware.new).Inv :=
  foldl_invariant (fun _ e h => h.step e) Inv.new events

/-! ## Runs -/

/-- No request asks more than three times. -/
theorem asked_le_three (config : RateLimitConfig) (events : List AuthEvent) (i : Nat) :
    (events.foldl (step config) new).asked i ≤ 3 := by
  have h := Inv.run config events
  cases hi : (events.foldl (step config) new).requests[i]? with
  | some r =>
      have hr := h.requests i r hi
      unfold Sound at hr
      split at hr <;> omega
  | none =>
      have hlength := List.getElem?_eq_none_iff.mp hi
      have hzero : (events.foldl (step config) new).asked i = 0 := by
        rw [asked, List.countP_eq_zero]
        intro a ha
        have hlt := h.known a ha
        simp only [decide_eq_true_eq]
        omega
      omega

/-- What a lookup finds is what a table finds whose rows live for a minute and that
nobody cleans up. -/
theorem cached_eq_ttl (config : RateLimitConfig) (events : List AuthEvent) (token : String) :
    ((events.foldl (step config) new).cached token).map (·.ctx) =
      (events.foldl (step config) new).ttl.get? token := by
  rw [Expiring.get?, (Inv.run config events).rows, Option.map_map]
  rfl

end Middleware

end Pandaria.Gateway
