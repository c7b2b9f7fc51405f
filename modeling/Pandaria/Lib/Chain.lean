import Mathlib.Data.List.Basic

/-!
# Handlers asked one after another

Two ways of making one handler out of a list of them. In the first the list is
asked until an answer is final. In the second, a pipeline, all are asked; each
is asked with what the answers before it have made of the question, and what
they have made of it together is the answer.

Both are loops in a monad of which nothing is assumed: a handler may keep a
state, fail, or look at the world. What a combination of combinations comes to
depends only on how answers are put together, and that is a matter of a few
equations.
-/

namespace Pandaria.Lib

variable {m : Type → Type} [Monad m] {A C R β γ δ : Type}

/-! ## The first final answer -/

/-- The first answer that is final, and `dflt` when none is. -/
def firstFinal (final : R → Bool) (dflt : R) : List (m R) → m R
  | [] => pure dflt
  | ask :: rest => do
      let r ← ask
      if final r then pure r else firstFinal final dflt rest

section FirstFinal

variable {final : R → Bool} {dflt : R}

/-- The one answer of a chain of one: only a final answer gets through. -/
theorem firstFinal_singleton [LawfulMonad m] (ask : m R) :
    firstFinal final dflt [ask] = (fun r => if final r then r else dflt) <$> ask := by
  rw [firstFinal, map_eq_pure_bind]
  refine bind_congr fun r => ?_
  cases final r with
  | true => rfl
  | false => rfl

variable [LawfulMonad m] (hd : final dflt = false)
include hd

theorem firstFinal_append (l₁ l₂ : List (m R)) :
    firstFinal final dflt (l₁ ++ l₂) = (do
      let r ← firstFinal final dflt l₁
      if final r then pure r else firstFinal final dflt l₂) := by
  induction l₁ with
  | nil => simp [firstFinal, hd]
  | cons ask rest ih =>
      simp only [List.cons_append, firstFinal, bind_assoc]
      refine bind_congr fun r => ?_
      cases hr : final r with
      | true => simp [hr]
      | false => simpa using ih

/-- A chain within a chain. -/
theorem firstFinal_flatten (l₁ l₂ l₃ : List (m R)) :
    firstFinal final dflt (l₁ ++ firstFinal final dflt l₂ :: l₃) =
      firstFinal final dflt (l₁ ++ l₂ ++ l₃) := by
  rw [List.append_assoc, firstFinal_append hd, firstFinal_append hd l₁,
    firstFinal_append hd l₂ l₃]
  rfl

/-- One that answers the default is as good as not there. -/
theorem firstFinal_pure (l₁ l₂ : List (m R)) :
    firstFinal final dflt (l₁ ++ pure dflt :: l₂) = firstFinal final dflt (l₁ ++ l₂) := by
  rw [firstFinal_append hd, firstFinal_append hd l₁ l₂]
  simp [firstFinal, hd]

end FirstFinal

/-! ## Pipelines -/

/-- What a loop makes of an accumulator that stands for another one. -/
theorem foldlM_map_acc [LawfulMonad m] {f : β → δ → m β} {f' : γ → δ → m γ} (g : β → γ)
    (h : ∀ b d, f' (g b) d = g <$> f b d) (l : List δ) (b : β) :
    l.foldlM f' (g b) = g <$> l.foldlM f b := by
  induction l generalizing b with
  | nil => simp
  | cons d rest ih =>
      rw [List.foldlM_cons, List.foldlM_cons, h, map_bind, bind_map_left]
      exact bind_congr fun b => ih b

/-- How a pipeline puts answers `R` to a question `C` together, in an
accumulator `A`: what it starts from, what it asks the next handler, what it
makes of the answer, and what it answers in the end. -/
structure Pipeline (C R A : Type) where
  start : C → A
  ask : C → A → C
  absorb : A → R → A
  answer : A → R
  /-- An answer that says nothing. -/
  empty : R
  /-- What a pipeline that has just started asks is what it was asked. -/
  ask_start (c : C) : ask c (start c) = c
  /-- A pipeline without handlers says nothing new. -/
  absorb_start (c : C) (a : A) : absorb a (answer (start (ask c a))) = a
  ask_absorb (c : C) (a b : A) : ask c (absorb a (answer b)) = ask (ask c a) b
  absorb_absorb (a b : A) (r : R) :
    absorb (absorb a (answer b)) r = absorb a (answer (absorb b r))
  absorb_empty (a : A) : absorb a empty = a

namespace Pipeline

variable (p : Pipeline C R A)

/-- One handler's turn. -/
def next (c : C) (a : A) (handler : C → m R) : m A := p.absorb a <$> handler (p.ask c a)

def run (handlers : List (C → m R)) (c : C) : m R :=
  p.answer <$> handlers.foldlM (p.next c) (p.start c)

/-- What a pipeline of one makes of its handler's answer. -/
def through (c : C) (r : R) : R := p.answer (p.absorb (p.start c) r)

variable [LawfulMonad m]

theorem run_singleton (h : C → m R) (c : C) : p.run [h] c = p.through c <$> h c := by
  have hone : [h].foldlM (p.next c) (p.start c) = p.absorb (p.start c) <$> h c := by
    simp [next, p.ask_start]
  rw [run, hone, Functor.map_map]
  rfl

/-- A pipeline as a handler does what its handlers do one after the other. -/
theorem next_run (handlers : List (C → m R)) (c : C) (a : A) :
    p.next c a (p.run handlers) = handlers.foldlM (p.next c) a := by
  have hstep (b : A) (h : C → m R) :
      p.next c (p.absorb a (p.answer b)) h =
        (fun b => p.absorb a (p.answer b)) <$> p.next (p.ask c a) b h := by
    rw [next, next, Functor.map_map, p.ask_absorb]
    exact congrArg (· <$> _) (funext fun r => p.absorb_absorb a b r)
  have hfold := foldlM_map_acc (fun b => p.absorb a (p.answer b)) hstep handlers
    (p.start (p.ask c a))
  rw [p.absorb_start] at hfold
  rw [hfold, next, run, Functor.map_map]

/-- A pipeline within a pipeline. -/
theorem run_flatten (l₁ l₂ l₃ : List (C → m R)) :
    p.run (l₁ ++ p.run l₂ :: l₃) = p.run (l₁ ++ l₂ ++ l₃) := by
  funext c
  simp only [run, List.foldlM_append, List.foldlM_cons, next_run, bind_assoc]

/-- One that says nothing is as good as not there. -/
theorem run_pure (l₁ l₂ : List (C → m R)) :
    p.run (l₁ ++ (fun _ => pure p.empty) :: l₂) = p.run (l₁ ++ l₂) := by
  funext c
  simp [run, next, p.absorb_empty]

end Pipeline

/-! ## Records

Handlers on a state, which may panic. What they are asked and what they answer is
found by running the same loop over handlers that write it down. -/

section Records

variable {σ : Type}

theorem run_bind {α : Type} (x : OptionT (StateM σ) α) (f : α → OptionT (StateM σ) β) (s : σ) :
    (x >>= f).run s = match x.run s with
      | (none, s') => (none, s')
      | (some a, s') => (f a).run s' := by
  rw [OptionT.run_bind]
  show (x.run s).1.elim (pure none) (fun a => (f a).run) (x.run s).2 = _
  cases x.run s with
  | mk r s' =>
      cases r with
      | none => rfl
      | some a => rfl

theorem run_map {α : Type} (f : α → β) (x : OptionT (StateM σ) α) (s : σ) :
    (f <$> x).run s = ((x.run s).1.map f, (x.run s).2) := by
  rw [OptionT.run_map]
  rfl

/-- A handler that writes down what it is asked and what it answers. -/
def recorded (handler : C → OptionT (StateM σ) R) (c : C) :
    OptionT (StateM (σ × List (C × Option R))) R :=
  OptionT.mk fun s =>
    (((handler c).run s.1).1, (((handler c).run s.1).2, s.2 ++ [(c, ((handler c).run s.1).1)]))

theorem recorded_run (handler : C → OptionT (StateM σ) R) (c : C) (s : σ)
    (log : List (C × Option R)) :
    (recorded handler c).run (s, log) =
      (((handler c).run s).1, (((handler c).run s).2, log ++ [(c, ((handler c).run s).1)])) := rfl

namespace Pipeline

variable (p : Pipeline C R A)

/-- Questions and answers of a run, which ends with the first panic. -/
def exchange (c : C) : List (C → OptionT (StateM σ) R) → A → σ → List (C × Option R)
  | [], _, _ => []
  | handler :: rest, a, s =>
      match (handler (p.ask c a)).run s with
      | (none, _) => [(p.ask c a, none)]
      | (some r, s') => (p.ask c a, some r) :: exchange c rest (p.absorb a r) s'

/-- Writing down changes nothing. -/
theorem foldlM_recorded (handlers : List (C → OptionT (StateM σ) R)) (c : C) (a : A) (s : σ)
    (log : List (C × Option R)) :
    ((handlers.map recorded).foldlM (p.next c) a).run (s, log) =
      (((handlers.foldlM (p.next c) a).run s).1,
        (((handlers.foldlM (p.next c) a).run s).2, log ++ p.exchange c handlers a s)) := by
  induction handlers generalizing a s log with
  | nil =>
      rw [exchange, List.append_nil]
      rfl
  | cons handler rest ih =>
      rw [List.map_cons, List.foldlM_cons, List.foldlM_cons, run_bind, run_bind, next, next,
        run_map, run_map, exchange, recorded_run]
      cases (handler (p.ask c a)).run s with
      | mk r s' =>
          cases r with
          | none => rfl
          | some r =>
              refine (ih (p.absorb a r) s' _).trans ?_
              rw [List.append_assoc]
              rfl

theorem run_recorded (handlers : List (C → OptionT (StateM σ) R)) (c : C) (s : σ)
    (log : List (C × Option R)) :
    (p.run (handlers.map recorded) c).run (s, log) =
      (((p.run handlers c).run s).1,
        (((p.run handlers c).run s).2, log ++ p.exchange c handlers (p.start c) s)) := by
  rw [run, run, run_map, run_map, foldlM_recorded]

/-- The answers put together, as far as there are any. -/
def gather (exchange : List (C × Option R)) (a : A) : Option A :=
  exchange.foldlM (fun a (e : C × Option R) => e.2.map (p.absorb a)) a

/-- What a run comes to depends on the answers alone. -/
theorem foldlM_answer (handlers : List (C → OptionT (StateM σ) R)) (c : C) (a : A) (s : σ) :
    ((handlers.foldlM (p.next c) a).run s).1 =
      p.gather (p.exchange c handlers a s) a := by
  induction handlers generalizing a s with
  | nil => rfl
  | cons handler rest ih =>
      rw [List.foldlM_cons, run_bind, next, run_map, exchange]
      cases (handler (p.ask c a)).run s with
      | mk r s' =>
          cases r with
          | none => rfl
          | some r => exact ih (p.absorb a r) s'

theorem run_answer (handlers : List (C → OptionT (StateM σ) R)) (c : C) (s : σ) :
    ((p.run handlers c).run s).1 =
      (p.gather (p.exchange c handlers (p.start c) s) (p.start c)).map p.answer := by
  rw [run, run_map, foldlM_answer]

end Pipeline

end Records

end Pandaria.Lib
