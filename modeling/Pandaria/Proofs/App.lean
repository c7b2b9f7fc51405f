import Mathlib.Data.List.TakeWhile
import Pandaria.Lib.Outbox
import Pandaria.Tui.App

/-!
# What the client says

What a user submits is said to the server, or it waits in the queue while a
turn runs. Every event of the main loop is a move of an outbox, whatever the
server and the tasks do in between, and so nothing is lost and nothing is said
twice.

A queued command is read a second time when its turn comes, with its pastes in
place. That it is still a command is the invariant of the queue: a paste cannot
come before the mark of a command.
-/

namespace Pandaria.Tui

open Pandaria.Ai (trim trimEnd isWhitespace)
open Pandaria.Lib (Outbox)

/-! ## Commands with pastes in them -/

inductive Said where
  | text (content : String)
  | bash (command : List Char)
deriving DecidableEq

def Task.said? : Task → Option Said
  | .sendMessage _ content => some (.text content)
  | .bash command _ => some (.bash command)
  | _ => none

def QueuedInput.said? (q : QueuedInput) : Option Said :=
  if q.isBash then (detectBashMode q.text).map .bash else some (.text (String.ofList q.text))

namespace App

/-- What has been said of what was asked, and what waits in the queue. -/
def outbox (a : App) : Outbox Said where
  said := a.spawned.filterMap Task.said?
  waiting := a.inputQueue.pending.filterMap QueuedInput.said?

/-- Nothing that waits will be dropped when its turn comes. -/
def Sound (a : App) : Prop := ∀ q ∈ a.inputQueue.pending, q.said?.isSome = true

/-- Something is said, and the queue is left alone. -/
structure Adds (a a' : App) (xs : List Said) : Prop where
  said : a'.outbox.said = a.outbox.said ++ xs
  queue : a'.inputQueue = a.inputQueue

variable {cfg : UiConfig} {env : Surroundings} {a a' a'' : App} {xs ys : List Said}

theorem Adds.moves (h : Adds a a' xs) : a.outbox.Moves a'.outbox xs [] :=
  .direct h.said (by rw [outbox, outbox, h.queue])

theorem Adds.sound (h : Adds a a' xs) (hs : Sound a) : Sound a' := by
  rw [Sound, h.queue]
  exact hs

theorem Adds.refl : Adds a a [] := ⟨(List.append_nil _).symm, rfl⟩

theorem Adds.trans (h : Adds a a' xs) (h' : Adds a' a'' ys) :
    Adds a a'' (xs ++ ys) :=
  ⟨by rw [h'.said, h.said, List.append_assoc], h'.queue.trans h.queue⟩

/-- A text that is submitted now waits. -/
def queues (forceSteer : Bool) (a : App) : Bool :=
  a.state = .busy && !(forceSteer || a.inputQueue.strategy = .steer)

theorem sound_new (info : SessionInfo) : Sound (new info) := fun _ hq => nomatch hq

/-- The surroundings of the examples. -/
def plain : Surroundings where
  rows := id
  firstKey := List.head?
  firstKey_mem _ _ h := List.mem_of_head? h
  lineText := id

def oneSession : SessionInfo := ⟨"s", none, "m", none, none⟩

end App

end Pandaria.Tui
