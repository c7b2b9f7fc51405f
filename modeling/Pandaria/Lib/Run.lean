import Mathlib.Data.List.Forall2
import Mathlib.Logic.Function.Iterate

/-!
# Runs of a machine, and what holds along them

A machine is a step function. One kind is driven by nothing but itself and
runs by iteration; the other is driven by a list of events. For both there is
the same rule: what one step preserves, provided the state it starts in and
the event it takes meet a condition, a whole run preserves, provided all its
steps meet it.
-/

namespace Pandaria.Lib

variable {σ ε : Type _}

/-! ## Iteration -/

/-- The first `n` steps from `s` all start in a state satisfying `Ok`. -/
def OkFor (step : σ → σ) (Ok : σ → Prop) (s : σ) (n : Nat) : Prop :=
  ∀ i < n, Ok (step^[i] s)

theorem OkFor.mono {step : σ → σ} {Ok : σ → Prop} {s : σ} {m n : Nat}
    (h : OkFor step Ok s n) (hle : m ≤ n) : OkFor step Ok s m :=
  fun i hi => h i (by omega)

/-- What every step satisfying `Ok` preserves, a run of such steps preserves. -/
theorem OkFor.invariant {step : σ → σ} {Ok Inv : σ → Prop}
    (hstep : ∀ s, Ok s → Inv s → Inv (step s)) {s : σ} (hs : Inv s) {n : Nat}
    (hok : OkFor step Ok s n) : Inv (step^[n] s) := by
  induction n with
  | zero => exact hs
  | succ n ih =>
      rw [Function.iterate_succ_apply']
      exact hstep _ (hok n (Nat.lt_succ_self n)) (ih (hok.mono (Nat.le_succ n)))

/-- And without a condition. -/
theorem iterate_invariant {step : σ → σ} {Inv : σ → Prop}
    (hstep : ∀ s, Inv s → Inv (step s)) {s : σ} (hs : Inv s) (n : Nat) :
    Inv (step^[n] s) :=
  have hok : OkFor step (fun _ => True) s n := fun _ _ => trivial
  hok.invariant (fun s _ => hstep s) hs

/-- When `Good` is what the invariant is for, and a step from the invariant that
ends well has met the condition, a run is good throughout exactly when all its
steps meet it. -/
theorem forall_le_iff_okFor {step : σ → σ} {Ok Inv Good : σ → Prop}
    (hstep : ∀ s, Ok s → Inv s → Inv (step s)) (hgood : ∀ s, Inv s → Good s)
    (hback : ∀ s, Inv s → Good (step s) → Ok s) {s : σ} (hs : Inv s) (n : Nat) :
    (∀ i ≤ n, Good (step^[i] s)) ↔ OkFor step Ok s n := by
  constructor
  · intro h
    induction n with
    | zero => exact fun i hi => absurd hi (Nat.not_lt_zero i)
    | succ n ih =>
        have hok : OkFor step Ok s n := ih fun i hi => h i (by omega)
        intro i hi
        rcases Nat.lt_succ_iff_lt_or_eq.mp hi with hlt | rfl
        · exact hok i hlt
        · have hlast := h (i + 1) (Nat.le_refl _)
          rw [Function.iterate_succ_apply'] at hlast
          exact hback _ (hok.invariant hstep hs) hlast
  · intro h i hi
    exact hgood _ ((h.mono hi).invariant hstep hs)

/-! ## Events -/

/-- Every event of the run from `s` satisfies `Ok` in the state it meets. -/
def Along (step : σ → ε → σ) (Ok : σ → ε → Prop) : σ → List ε → Prop
  | _, [] => True
  | s, e :: es => Ok s e ∧ Along step Ok (step s e) es

theorem Along.append {step : σ → ε → σ} {Ok : σ → ε → Prop} {s : σ} {xs ys : List ε} :
    Along step Ok s (xs ++ ys) ↔
      Along step Ok s xs ∧ Along step Ok (xs.foldl step s) ys := by
  induction xs generalizing s with
  | nil => simp [Along]
  | cons e es ih =>
      rw [List.cons_append, Along, Along, ih, List.foldl_cons, and_assoc]

/-- The rule for runs driven by events. -/
theorem Along.invariant {step : σ → ε → σ} {Ok : σ → ε → Prop} {Inv : σ → Prop}
    (hstep : ∀ s e, Ok s e → Inv s → Inv (step s e)) {s : σ} (hs : Inv s) {es : List ε}
    (hok : Along step Ok s es) : Inv (es.foldl step s) := by
  induction es generalizing s with
  | nil => exact hs
  | cons e es ih => exact ih (hstep s e hok.1 hs) hok.2

/-- And without a condition. -/
theorem foldl_invariant {step : σ → ε → σ} {Inv : σ → Prop}
    (hstep : ∀ s e, Inv s → Inv (step s e)) {s : σ} (hs : Inv s) (es : List ε) :
    Inv (es.foldl step s) := by
  induction es generalizing s with
  | nil => exact hs
  | cons e es ih => exact ih (hstep s e hs)

theorem Along.mono {step : σ → ε → σ} {Ok Ok' : σ → ε → Prop} {s : σ} {es : List ε}
    (himp : ∀ s, ∀ e ∈ es, Ok s e → Ok' s e) (h : Along step Ok s es) : Along step Ok' s es := by
  induction es generalizing s with
  | nil => trivial
  | cons e es ih =>
      exact ⟨himp s e List.mem_cons_self h.1,
        ih (fun s e' he' => himp s e' (List.mem_cons_of_mem _ he')) h.2⟩

theorem Along.and {step : σ → ε → σ} {Ok Ok' : σ → ε → Prop} {s : σ} {es : List ε}
    (h : Along step Ok s es) (h' : Along step Ok' s es) :
    Along step (fun s e => Ok s e ∧ Ok' s e) s es := by
  induction es generalizing s with
  | nil => trivial
  | cons e es ih => exact ⟨⟨h.1, h'.1⟩, ih h.2 h'.2⟩

/-- A condition on the events alone. -/
theorem along_of_forall_mem {step : σ → ε → σ} {P : ε → Prop} {es : List ε}
    (h : ∀ e ∈ es, P e) (s : σ) : Along step (fun _ e => P e) s es := by
  induction es generalizing s with
  | nil => trivial
  | cons e es ih =>
      exact ⟨h e List.mem_cons_self, ih (fun e' he' => h e' (List.mem_cons_of_mem _ he')) _⟩

/-- A run whose steps all make a measure smaller is no longer than the measure. -/
theorem Along.length_le {step : σ → ε → σ} {Ok : σ → ε → Prop} {Inv : σ → Prop} {measure : σ → Nat}
    (hstep : ∀ s e, Ok s e → Inv s → Inv (step s e) ∧ measure (step s e) < measure s) {s : σ}
    (hs : Inv s) {es : List ε} (hok : Along step Ok s es) : es.length ≤ measure s := by
  induction es generalizing s with
  | nil => exact Nat.zero_le _
  | cons e es ih =>
      obtain ⟨hinv, hlt⟩ := hstep s e hok.1 hs
      have hle := ih hinv hok.2
      rw [List.length_cons]
      omega

instance decidableAlong (step : σ → ε → σ) (Ok : σ → ε → Prop) [∀ s e, Decidable (Ok s e)]
    (s : σ) (es : List ε) : Decidable (Along step Ok s es) :=
  match es with
  | [] => .isTrue trivial
  | e :: es =>
      have := decidableAlong step Ok (step s e) es
      inferInstanceAs (Decidable (Ok s e ∧ Along step Ok (step s e) es))

/-- When the condition is exactly what makes a step from the invariant end well, a
run is good throughout exactly when all its steps meet it. The invariant need be
kept only as long as all is well. -/
theorem along_iff_forall_good {step : σ → ε → σ} {Ok : σ → ε → Prop} {Inv Good : σ → Prop}
    (hstep : ∀ s e, Inv s → Good s → Inv (step s e) ∧ (Good (step s e) ↔ Ok s e)) {s : σ}
    (hs : Inv s) (hgood : Good s) (es : List ε) :
    (∀ n, Good ((es.take n).foldl step s)) ↔ Along step Ok s es := by
  induction es generalizing s with
  | nil => simp [Along, hgood]
  | cons e es ih =>
      obtain ⟨hkeep, hiff⟩ := hstep s e hs hgood
      constructor
      · intro h
        have he : Good (step s e) := h 1
        exact ⟨hiff.mp he, (ih hkeep he).mp fun n => h (n + 1)⟩
      · rintro ⟨he, hes⟩ n
        cases n with
        | zero => exact hgood
        | succ n => exact (ih hkeep (hiff.mpr he)).mpr hes n

/-- The same for an invariant that is what the run should keep. -/
theorem along_iff_forall_take {step : σ → ε → σ} {Ok : σ → ε → Prop} {Inv : σ → Prop}
    (hstep : ∀ s e, Inv s → (Inv (step s e) ↔ Ok s e)) {s : σ} (hs : Inv s) (es : List ε) :
    (∀ n, Inv ((es.take n).foldl step s)) ↔ Along step Ok s es := by
  have hgood (s : σ) (e : ε) (_ : True) (h : Inv s) : True ∧ (Inv (step s e) ↔ Ok s e) :=
    ⟨trivial, hstep s e h⟩
  exact along_iff_forall_good hgood trivial hs es

end Pandaria.Lib

/-! ## Machines that answer

Such a machine takes a request and gives an answer with its next state. One
refines another when the two answer alike, request by request, and for that a
relation between their states is enough which every request keeps. As with
runs, it may be kept under a condition only, on the two states and the request. -/

namespace Pandaria.Lib

variable {σ τ ε ρ : Type _}

/-- The answers to the requests, in their order. -/
def answers (step : σ → ε → σ × ρ) : σ → List ε → List ρ
  | _, [] => []
  | s, e :: es => (step s e).2 :: answers step (step s e).1 es

/-- Two machines side by side, given the same requests. -/
def both (step : σ → ε → σ × ρ) (step' : τ → ε → τ × ρ) (s : σ × τ) (e : ε) : σ × τ :=
  ((step s.1 e).1, (step' s.2 e).1)

/-- The rule for refinements. -/
theorem forall₂_answers {step : σ → ε → σ × ρ} {step' : τ → ε → τ × ρ} {R : σ → τ → Prop}
    {Agree : ρ → ρ → Prop} {Ok : σ × τ → ε → Prop}
    (hstep : ∀ s t e, R s t → Ok (s, t) e →
      R (step s e).1 (step' t e).1 ∧ Agree (step s e).2 (step' t e).2)
    {s : σ} {t : τ} (hs : R s t) {es : List ε} (hok : Along (both step step') Ok (s, t) es) :
    List.Forall₂ Agree (answers step s es) (answers step' t es) := by
  induction es generalizing s t with
  | nil => exact .nil
  | cons e es ih =>
      obtain ⟨hr, hagree⟩ := hstep s t e hs hok.1
      exact .cons hagree (ih hr hok.2)

end Pandaria.Lib
