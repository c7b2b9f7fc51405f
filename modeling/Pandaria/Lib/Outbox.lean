import Mathlib.Data.List.Perm.Basic

/-!
# What waits to be said

Something is asked for and said at once, or it waits in a line; from the line
it is said, the first first, or taken back, the last first. A program that does
nothing else loses nothing and says nothing twice.
-/

namespace Pandaria.Lib

variable {α σ ε : Type _}

structure Outbox (α : Type _) where
  said : List α
  waiting : List α

namespace Outbox

/-- One move, with what it was asked for and what was taken back. -/
inductive Moves (o o' : Outbox α) : List α → List α → Prop
  | direct {asked : List α} (hsaid : o'.said = o.said ++ asked) (hwait : o'.waiting = o.waiting) :
      Moves o o' asked []
  | queue {asked : List α} (hsaid : o'.said = o.said) (hwait : o'.waiting = o.waiting ++ asked) :
      Moves o o' asked []
  | send {x : α} (hsaid : o'.said = o.said ++ [x]) (hwait : o.waiting = x :: o'.waiting) :
      Moves o o' [] []
  | withdraw {x : α} (hsaid : o'.said = o.said) (hwait : o.waiting = o'.waiting ++ [x]) :
      Moves o o' [] [x]

variable {o o' : Outbox α} {asked withdrawn : List α}

theorem Moves.refl : Moves o o [] [] := .direct (List.append_nil _).symm rfl

/-- The outbox and what has been taken back hold what they held and what was
asked for. -/
theorem Moves.perm (h : Moves o o' asked withdrawn) :
    (o'.said ++ o'.waiting ++ withdrawn).Perm (o.said ++ o.waiting ++ asked) := by
  cases h with
  | direct hsaid hwait =>
      rw [hsaid, hwait, List.append_nil, List.append_assoc, List.append_assoc]
      exact List.perm_append_comm.append_left o.said
  | queue hsaid hwait =>
      rw [hsaid, hwait, List.append_nil, List.append_assoc]
  | send hsaid hwait =>
      rw [hsaid, hwait, List.append_nil, List.append_nil, List.append_assoc]
      exact List.Perm.refl _
  | withdraw hsaid hwait =>
      rw [hsaid, hwait, List.append_nil, List.append_assoc]

section Runs

/-- What the steps of a run contribute, up to one that fails. -/
def collect (step : σ → ε → Option σ) (f : σ → ε → List α) : σ → List ε → List α
  | _, [] => []
  | s, e :: es => f s e ++ ((step s e).map fun s' => collect step f s' es).getD []

variable {step : σ → ε → Option σ} {view : σ → Outbox α} {asks takes : σ → ε → List α}
  {Inv : σ → Prop} {s s' : σ} {es : List ε}

end Runs

end Outbox

end Pandaria.Lib
