import Pandaria.Lib.Run
import Pandaria.Lib.Threads
import Pandaria.Tenant.Session

/-!
# Who blocks itself

A task that holds a reference and requests a lock to write may block itself,
and does so when the two are of the same shard. Whether an operation ever does
that can be read off its program: `Safe` goes through it with the references it
holds at every step. All operations are safe but the two that copy a session:
they keep the reference to the source while they create the copy, and are safe
only as long as that fails.
-/

namespace Pandaria.Tenant

open Pandaria.Agent Pandaria.Lib

variable {σ : Type}

/-! ## Programs -/

namespace Program

/-- Along every path of the program a lock to write is requested without a
reference, and none at all beside an exclusive one. The webhook of a copy is
refused. -/
def Safe (copies : Bool) : List LockMode → Program → Prop
  | _, .done => True
  | held, .get _ next =>
      .exclusive ∉ held ∧ Safe copies (.shared :: held) (next true) ∧ Safe copies held (next false)
  | held, .getMut _ next =>
      held = [] ∧ Safe copies [.exclusive] (next true) ∧ Safe copies [] (next false)
  | held, .insert _ next => held = [] ∧ Safe copies [] next
  | held, .remove _ next => held = [] ∧ ∀ found, Safe copies [] (next found)
  | held, .drop next => Safe copies held.tail next
  | held, .ask question next =>
      Safe copies held (next false) ∧
        (¬ (copies = true ∧ question = .webhook) → Safe copies held (next true))
  | held, .newId next => ∀ sessionId, Safe copies held (next sessionId)
  | held, .scan next => held = [] ∧ ∀ keys, Safe copies [] (next keys)

/-- An answer of any kind, where the question is not that of the webhook. -/
theorem safe_ask {copies : Bool} {held : List LockMode} {question : Question}
    {next : Bool → Program} (h : ∀ yes, Safe copies held (next yes)) :
    Safe copies held (.ask question next) :=
  ⟨h false, fun _ => h true⟩

/-- A session is created without a reference, or its webhook is refused. -/
theorem safe_createSession {copies : Bool} {held : List LockMode} {tenantId : String}
    {next : Option Uuid → Program} (hheld : copies = true ∨ held = [])
    (h : ∀ sessionId, Safe copies held (next sessionId)) :
    Safe copies held (createSession tenantId next) := by
  refine safe_ask fun registered => ?_
  cases registered with
  | false => exact h none
  | true =>
      refine safe_ask fun reserved => ?_
      cases reserved with
      | false => exact h none
      | true =>
          intro sessionId
          refine safe_ask fun allowed => ?_
          cases allowed with
          | false => exact h none
          | true =>
              refine safe_ask fun built => ?_
              cases built with
              | false => exact h none
              | true =>
                  refine ⟨h none, fun hno => ?_⟩
                  rcases hheld with hcopies | hheld
                  · exact absurd ⟨hcopies, rfl⟩ hno
                  · rw [hheld] at h ⊢
                    exact ⟨rfl, h (some sessionId)⟩

variable {copies : Bool}

theorem safe_deleteSession (key : SessionKey) {next : Program} (h : Safe copies [] next) :
    Safe copies [] (deleteSession key next) := by
  refine ⟨rfl, fun found => ?_⟩
  cases found with
  | false => exact h
  | true => exact safe_ask fun _ => h

theorem safe_deleteAll (keys : List SessionKey) : Safe copies [] (deleteAll keys) := by
  induction keys with
  | nil => trivial
  | cons key keys ih => exact safe_deleteSession key ih

theorem safe_batchLoop (tenantId : String) (count : Nat) (created : List SessionKey) :
    Safe copies [] (batchLoop tenantId count created) := by
  induction count generalizing created with
  | zero => trivial
  | succ count ih =>
      refine safe_createSession (.inr rfl) fun sessionId => ?_
      cases sessionId with
      | some sessionId => exact ih _
      | none => exact safe_deleteAll created

theorem safe_getSession (key : SessionKey) : Safe copies [] (getSession key) :=
  ⟨List.not_mem_nil, trivial, trivial⟩

theorem safe_withEntry (key : SessionKey) (question : Question) :
    Safe copies [] (withEntry key question) :=
  ⟨List.not_mem_nil, safe_ask fun _ => trivial, trivial⟩

theorem safe_sendMessage (key : SessionKey) {next : Program} (h : Safe copies [] next) :
    Safe copies [] (sendMessage key next) := by
  refine ⟨List.not_mem_nil, safe_ask fun within => ?_, h⟩
  cases within with
  | false => exact h
  | true => exact safe_ask fun _ => h

theorem safe_cloneSession (key : SessionKey) : Safe true [] (cloneSession key) :=
  ⟨List.not_mem_nil,
    safe_ask fun _ => safe_createSession (.inl rfl) fun _ => trivial, trivial⟩

theorem safe_forkSession (key : SessionKey) : Safe true [] (forkSession key) := by
  refine ⟨List.not_mem_nil, safe_ask fun _ => safe_createSession (.inl rfl) fun sessionId => ?_,
    trivial⟩
  cases sessionId with
  | none => trivial
  | some sessionId =>
      refine safe_ask fun any => ?_
      cases any with
      | false => trivial
      | true => exact ⟨by decide, safe_ask fun _ => trivial, trivial⟩

/-- Every operation is safe, if the copies fail. -/
theorem safe_program (op : ManagerOp) : Safe op.copies [] op.program := by
  cases op with
  | createSession tenantId =>
      rw [ManagerOp.program]
      exact safe_createSession (.inr rfl) fun _ => trivial
  | listSessions | activeSessionCount => exact ⟨rfl, fun _ => trivial⟩
  | getSession key | interrupt key | subscribeEvents key => exact safe_getSession key
  | sendMessage key => exact safe_sendMessage key trivial
  | sendMessageAndWait key =>
      exact ⟨List.not_mem_nil, safe_sendMessage key trivial, trivial⟩
  | deleteSession key => exact safe_deleteSession key trivial
  | updateSession key => exact ⟨rfl, safe_ask fun _ => trivial, trivial⟩
  | compactSession key | getSessionMessages key | getSessionState key | resetSession key =>
      exact safe_withEntry key .actor
  | batchCreateSessions tenantId count =>
      rw [ManagerOp.program, batchCreateSessions]
      split
      · trivial
      · refine safe_ask fun registered => ?_
        cases registered with
        | false => trivial
        | true =>
            refine safe_ask fun within => ?_
            cases within with
            | false => trivial
            | true => exact safe_batchLoop tenantId count []
  | cloneSession key => exact safe_cloneSession key
  | forkSession key => exact safe_forkSession key
  | shutdown => exact ⟨rfl, safe_deleteAll⟩

end Program

/-! ## Tasks -/

namespace SessionMap

variable {shard : SessionKey → σ}

/-- No task that requests a lock to write holds any lock, and no task holds
what keeps it from the lock it requests. -/
structure NoSelfDeadlock (shard : SessionKey → σ) (s : SessionMap σ) : Prop where
  writes : ∀ t ∈ s.tasks, ∀ key, t.program.request = some (key, .exclusive) → t.holds = []
  own : ∀ t ∈ s.tasks, ∀ key mode, t.program.request = some (key, mode) →
    ∀ h ∈ t.holds, h.shard = shard key → h.mode = .shared ∧ mode = .shared

/-- The webhook of a copy is refused, if its creation gets that far. -/
def Ok (s : SessionMap σ) : MapEvent σ → Prop
  | .step i (.answer yes) =>
      ∀ t ∈ s.tasks[i]?, t.op.copies = true → t.program.question = some .webhook → yes = false
  | .call _ | .step _ .go | .step _ .abandon | .step _ (.newId _) | .step _ (.visit _)
  | .step _ (.scanned _) => True

/-- What a task holds fits what is left of its program; only a scan holds a
shard without a reference. -/
structure TaskOk (t : MapTask σ) : Prop where
  safe : t.program.Safe t.op.copies (t.refs.map Held.mode)
  scanning : t.scanning ≠ none → ∃ next, t.program = .scan next

/-- All tasks. -/
def Sound (s : SessionMap σ) : Prop := ∀ t ∈ s.tasks, TaskOk t

theorem TaskOk.next {t : MapTask σ} (h : TaskOk t) {program : Program} {refs : List (Held σ)}
    (hscan : ∀ next, t.program ≠ .scan next)
    (hsafe : program.Safe t.op.copies (refs.map Held.mode)) :
    TaskOk { t with program := program, refs := refs } where
  safe := hsafe
  scanning := by
    intro hsome
    obtain ⟨next, hprogram⟩ := h.scanning hsome
    exact absurd hprogram (hscan next)

theorem TaskOk.holds_eq {t : MapTask σ} (h : TaskOk t) {key : SessionKey} {mode : LockMode}
    (hrequest : t.program.request = some (key, mode)) : t.holds = t.refs := by
  have hscanning : t.scanning = none := by
    by_contra hsome
    obtain ⟨next, hprogram⟩ := h.scanning hsome
    rw [hprogram] at hrequest
    cases hrequest
  rw [MapTask.holds, hscanning]
  rfl

/-- A lookup, which leaves a reference when it finds the key. -/
theorem TaskOk.lookup {t : MapTask σ} (h : TaskOk t) {next : Bool → Program} {held : Held σ}
    {key : SessionKey} {keys : List SessionKey} (hscan : ∀ next, t.program ≠ .scan next)
    (hfound : (next true).Safe t.op.copies (held.mode :: t.refs.map Held.mode))
    (hmissing : (next false).Safe t.op.copies (t.refs.map Held.mode)) :
    TaskOk { t with
      program := next (key ∈ keys), refs := if key ∈ keys then held :: t.refs else t.refs } := by
  by_cases hkey : key ∈ keys
  · rw [if_pos hkey, decide_eq_true hkey]
    exact h.next hscan hfound
  · rw [if_neg hkey, decide_eq_false hkey]
    exact h.next hscan hmissing

theorem Sound.noSelfDeadlock {s : SessionMap σ} (h : s.Sound) :
    s.NoSelfDeadlock shard := by
  have hwrites : ∀ t ∈ s.tasks, ∀ key, t.program.request = some (key, .exclusive) →
      t.holds = [] := by
    intro t ht key hrequest
    have hsafe := (h t ht).safe
    rw [(h t ht).holds_eq hrequest, ← List.map_eq_nil_iff (f := Held.mode)]
    cases hprogram : t.program with
    | getMut | insert | remove =>
        rw [hprogram] at hsafe
        exact hsafe.1
    | done | get | drop | ask | newId | scan =>
        rw [hprogram] at hrequest
        cases hrequest
  refine ⟨hwrites, fun t ht key mode hrequest held hheld hshard => ?_⟩
  cases mode with
  | exclusive =>
      rw [hwrites t ht key hrequest] at hheld
      cases hheld
  | shared =>
      have hsafe := (h t ht).safe
      rw [(h t ht).holds_eq hrequest] at hheld
      refine ⟨?_, rfl⟩
      cases hprogram : t.program with
      | get =>
          rw [hprogram] at hsafe
          cases hmode : held.mode with
          | shared => rfl
          | exclusive => exact absurd (hmode ▸ List.mem_map_of_mem hheld) hsafe.1
      | getMut | insert | remove | done | drop | ask | newId | scan =>
          rw [hprogram] at hrequest
          cases hrequest

variable [DecidableEq σ] {s : SessionMap σ}

/-- An access of the map. -/
theorem taskOk_go {t t' : MapTask σ} {keys : List SessionKey} (h : TaskOk t)
    (hadvance : s.advance shard t .go = some (t', keys)) : TaskOk t' := by
  have hsafe := h.safe
  have hscan : ∀ {program : Program}, t.program = program →
      (∀ next, program ≠ .scan next) → ∀ next, t.program ≠ .scan next := by
    intro program hprogram hne
    rwa [hprogram]
  simp only [advance] at hadvance
  split at hadvance
  · next key next hprogram =>
      rw [hprogram] at hsafe
      split at hadvance
      · injection hadvance with hadvance
        injection hadvance with ht _
        rw [← ht]
        exact h.lookup (hscan hprogram fun _ => Program.noConfusion) hsafe.2.1 hsafe.2.2
      · cases hadvance
  · next key next hprogram =>
      rw [hprogram] at hsafe
      obtain ⟨hheld, hfound, hmissing⟩ := hsafe
      split at hadvance
      · injection hadvance with hadvance
        injection hadvance with ht _
        rw [← ht]
        rw [← hheld] at hmissing
        refine h.lookup (hscan hprogram fun _ => Program.noConfusion) ?_ hmissing
        rw [hheld]
        exact hfound
      · cases hadvance
  · next key next hprogram =>
      rw [hprogram] at hsafe
      split at hadvance
      · injection hadvance with hadvance
        injection hadvance with ht _
        rw [← ht]
        refine h.next (hscan hprogram fun _ => Program.noConfusion) ?_
        rw [hsafe.1]
        exact hsafe.2
      · cases hadvance
  · next key next hprogram =>
      rw [hprogram] at hsafe
      split at hadvance
      · injection hadvance with hadvance
        injection hadvance with ht _
        rw [← ht]
        refine h.next (hscan hprogram fun _ => Program.noConfusion) ?_
        rw [hsafe.1]
        exact hsafe.2 _
      · cases hadvance
  · next next hprogram =>
      rw [hprogram] at hsafe
      injection hadvance with hadvance
      injection hadvance with ht _
      rw [← ht]
      refine h.next (hscan hprogram fun _ => Program.noConfusion) ?_
      rw [List.map_tail]
      exact hsafe
  · cases hadvance

theorem taskOk_advance {t t' : MapTask σ} {keys : List SessionKey} {a : Advance σ} (h : TaskOk t)
    (hok : ∀ yes, a = .answer yes → t.op.copies = true →
      t.program.question = some .webhook → yes = false)
    (hadvance : s.advance shard t a = some (t', keys)) : TaskOk t' := by
  have hsafe := h.safe
  cases a with
  | go => exact taskOk_go h hadvance
  | answer yes =>
      simp only [advance] at hadvance
      split at hadvance
      · next question next hprogram =>
          rw [hprogram] at hsafe
          injection hadvance with hadvance
          injection hadvance with ht _
          rw [← ht]
          refine h.next (by rw [hprogram]; exact fun _ => Program.noConfusion) ?_
          cases yes with
          | false => exact hsafe.1
          | true =>
              refine hsafe.2 fun hcopy => Bool.noConfusion (hok true rfl hcopy.1 ?_)
              rw [hprogram, Program.question, hcopy.2]
      · cases hadvance
  | abandon =>
      simp only [advance] at hadvance
      split at hadvance
      · next question next hprogram =>
          injection hadvance with hadvance
          injection hadvance with ht _
          rw [← ht]
          exact h.next (by rw [hprogram]; exact fun _ => Program.noConfusion) trivial
      · cases hadvance
  | newId sessionId =>
      simp only [advance] at hadvance
      split at hadvance
      · next next hprogram =>
          rw [hprogram] at hsafe
          injection hadvance with hadvance
          injection hadvance with ht _
          rw [← ht]
          exact h.next (by rw [hprogram]; exact fun _ => Program.noConfusion) (hsafe sessionId)
      · cases hadvance
  | visit target =>
      simp only [advance] at hadvance
      split at hadvance
      · next next hprogram =>
          split at hadvance
          · injection hadvance with hadvance
            injection hadvance with ht _
            rw [← ht]
            exact ⟨h.safe, fun _ => ⟨next, hprogram⟩⟩
          · cases hadvance
      · cases hadvance
  | scanned keys =>
      simp only [advance] at hadvance
      split at hadvance
      · next next hprogram =>
          rw [hprogram] at hsafe
          injection hadvance with hadvance
          injection hadvance with ht _
          rw [← ht]
          refine ⟨?_, fun hsome => absurd rfl hsome⟩
          show (next keys).Safe t.op.copies (t.refs.map Held.mode)
          rw [hsafe.1]
          exact hsafe.2 keys
      · cases hadvance

/-! ## Any run -/

theorem sound_step (h : s.Sound) (e : MapEvent σ) (hok : s.Ok e) : (s.step shard e).Sound := by
  cases e with
  | call op =>
      refine forall_mem_push h ⟨?_, fun hsome => absurd rfl hsome⟩
      exact Program.safe_program op
  | step i a =>
      rw [step]
      split
      · next t ht =>
          split
          · next t' keys hadvance =>
              refine forall_mem_set h ?_ i
              refine taskOk_advance (h t (List.mem_of_getElem? ht)) (fun yes ha => ?_) hadvance
              subst ha
              exact hok t ht
          · exact h
      · exact h

/-- Whatever operations are called, however their keys are spread over shards
and in whatever order they go on: as long as no copy of a session gets to its
insertion, nobody blocks itself. -/
theorem noSelfDeadlock_of_along_ok (shard : SessionKey → σ) (keys : List SessionKey)
    (events : List (MapEvent σ))
    (h : Along (step shard) Ok { keys := keys, tasks := [] } events) :
    (events.foldl (step shard) { keys := keys, tasks := [] }).NoSelfDeadlock shard := by
  have hnone : ({ keys := keys, tasks := [] } : SessionMap σ).Sound :=
    fun t ht => absurd ht List.not_mem_nil
  refine Sound.noSelfDeadlock ?_
  refine Along.invariant (fun s e hok hs => ?_) hnone h
  exact sound_step hs e hok

/-! ## A copy that never returns -/

/-- A task that requests a lock to write of a shard it holds itself stays where
it is, whatever the others do. -/
theorem stuck_step {t : MapTask σ} {i : Nat} {key : SessionKey} (e : MapEvent σ)
    (hi : s.tasks[i]? = some t) (hrequest : t.program.request = some (key, .exclusive))
    (hholds : ∃ h ∈ t.holds, h.shard = shard key) : (s.step shard e).tasks[i]? = some t := by
  have hrefused : s.grants (shard key) .exclusive = false := by
    obtain ⟨h, hmem, hshard⟩ := hholds
    refine Bool.eq_false_iff.mpr fun hgrants => ?_
    have hfree := List.all_eq_true.mp
      (List.all_eq_true.mp hgrants t (List.mem_of_getElem? hi)) h hmem
    simp [hshard] at hfree
  have hwaits : ∀ a, s.advance shard t a = none := by
    intro a
    cases hprogram : t.program with
    | getMut k next | insert k next | remove k next =>
        rw [hprogram] at hrequest
        have hkey : k = key := congrArg Prod.fst (Option.some.inj hrequest)
        rw [← hkey] at hrefused
        cases a <;> simp [advance, hprogram, hrefused]
    | done | get | drop | ask | newId | scan =>
        rw [hprogram] at hrequest
        cases hrequest
  cases e with
  | call op =>
      obtain ⟨hlt, _⟩ := List.getElem?_eq_some_iff.mp hi
      exact (List.getElem?_append_left hlt).trans hi
  | step j a =>
      rw [step]
      split
      · next t' hj =>
          split
          · next t'' keys hadvance =>
              have hne : j ≠ i := by
                rintro rfl
                rw [hi] at hj
                injection hj with hj
                rw [← hj, hwaits] at hadvance
                cases hadvance
              exact (List.getElem?_set_ne hne).trans hi
          · exact hi
      · exact hi

theorem stuck_run {t : MapTask σ} {i : Nat} {key : SessionKey} (events : List (MapEvent σ))
    (hi : s.tasks[i]? = some t) (hrequest : t.program.request = some (key, .exclusive))
    (hholds : ∃ h ∈ t.holds, h.shard = shard key) :
    (events.foldl (step shard) s).tasks[i]? = some t := by
  induction events generalizing s with
  | nil => exact hi
  | cons e events ih => exact ih (stuck_step e hi hrequest hholds)

/-! ## Two keys of one shard -/

instance (s : SessionMap σ) : ∀ e, Decidable (s.Ok e)
  | .step i (.answer yes) =>
      inferInstanceAs (Decidable (∀ t ∈ s.tasks[i]?, _ → _ → yes = false))
  | .call _ | .step _ .go | .step _ .abandon | .step _ (.newId _) | .step _ (.visit _)
  | .step _ (.scanned _) => inferInstanceAs (Decidable True)

/-- Even and odd keys. -/
def twoShards (key : SessionKey) : Nat := key.2 % 2

/-- A copy of the session 1 with the id 3, up to the answer for its webhook. -/
def cloning : List (MapEvent Nat) :=
  [.call (.cloneSession ("acme", 1)), .step 0 .go, .step 0 (.answer true), .step 0 (.answer true),
    .step 0 (.answer true), .step 0 (.newId 3), .step 0 (.answer true), .step 0 (.answer true)]

def oneSession : SessionMap Nat := { keys := [("acme", 1)], tasks := [] }

/-- The webhook is refused, and the session can be deleted. -/
theorem noSelfDeadlock_refused :
    ((cloning ++ [MapEvent.step 0 (.answer false), .step 0 .go, .call (.deleteSession ("acme", 1)),
      .step 1 .go]).foldl (step twoShards) oneSession).NoSelfDeadlock twoShards := by
  refine noSelfDeadlock_of_along_ok twoShards [("acme", 1)] _ ?_
  decide +kernel

/-- The copy is about to be inserted into the shard of its source, and waits
for it ever after. -/
theorem not_noSelfDeadlock_cloning :
    ¬ ((cloning ++ [MapEvent.step 0 (.answer true)]).foldl (step twoShards) oneSession).NoSelfDeadlock
        twoShards ∧
      ∀ events, ∃ t, ((cloning ++ [MapEvent.step 0 (.answer true)] ++ events).foldl (step twoShards)
        oneSession).tasks[0]? = some t ∧
          t.program.request = some (("acme", 3), .exclusive) := by
  constructor
  · intro h
    have hholds := h.writes _ (List.mem_of_getElem? (i := 0) rfl) ("acme", 3) rfl
    cases hholds
  · intro events
    rw [List.foldl_append]
    exact ⟨_, stuck_run events rfl rfl ⟨_, List.mem_cons_self, rfl⟩, rfl⟩

end SessionMap

end Pandaria.Tenant
