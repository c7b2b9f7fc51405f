import Pandaria.Agent.Background
import Pandaria.Lib.Run
import Pandaria.Lib.Threads

/-!
# Loops that stop

A loop ends when its token is cancelled, and a session cancels the token it has
at the time. The two are the same until the next run makes a new one, and
nobody cancels the old one then. So loops stop with the session as long as it is
stopped before it is prompted again, or not at all; and they count their
iterations from one, the first having been run whatever the bound is.
-/

namespace Pandaria.Agent

open Pandaria.Ai Pandaria.Lib

variable {cfg : SessionConfig} {env : Env} {max : Option UInt32} {cancelled : List Nat}

/-! ## One loop -/

namespace BackgroundLoop

variable {l : BackgroundLoop}

/-- It is not over, and not at its bound. -/
def mayGoOn (max : Option UInt32) (l : BackgroundLoop) : Bool :=
  match l.phase with
  | .sleeping => true
  | .head | .running => !max.any fun m => m ≤ l.iteration
  | .ended => false

structure Sound (max : Option UInt32) (cancelled : List Nat) (l : BackgroundLoop) : Prop where
  late : l.late = false
  stopped : l.stopped = true → l.mayGoOn max = true → l.token ∈ cancelled
  counted : ∀ m, max = some m → l.iterations = l.iteration.toNat ∧ l.iteration.toNat ≤ m.toNat
  sleeping : ∀ m, max = some m → l.phase = .sleeping → l.iteration.toNat < m.toNat

theorem Sound.mono (h : l.Sound max cancelled) {cancelled' : List Nat}
    (hsub : cancelled ⊆ cancelled') : l.Sound max cancelled' :=
  ⟨h.late, fun hstopped hgo => hsub (h.stopped hstopped hgo), h.counted, h.sleeping⟩

theorem sound_spawn (hmax : max ≠ some 0) (task : String) (termination : TerminationStrategy)
    (token : Nat) : (spawn task termination token).Sound max cancelled where
  late := rfl
  stopped h _ := absurd h Bool.false_ne_true
  counted m hm := by
    refine ⟨rfl, ?_⟩
    show 1 ≤ m.toNat
    have hne : m.toNat ≠ 0 := by
      intro h
      have hzero : m = 0 := UInt32.toNat_inj.mp h
      exact hmax (by rw [hm, hzero])
    omega
  sleeping _ _ h := by cases h

theorem Sound.ended (h : l.Sound max cancelled) :
    Sound max cancelled { l with phase := .ended } :=
  ⟨h.late, fun _ hgo => absurd hgo Bool.false_ne_true, h.counted, fun _ _ hsleep => by cases hsleep⟩

/-- A step of a loop is one of a loop that may go on, if it does. -/
theorem Sound.step (h : l.Sound max cancelled) :
    (l.step max (decide (l.token ∈ cancelled))).Sound max cancelled := by
  have hended := h.ended
  rw [BackgroundLoop.step]
  split
  · next hphase =>
      split
      · exact hended
      · split
        · exact hended
        · next hbound =>
            have hgo : l.mayGoOn max = true := by
              rw [mayGoOn, hphase]
              simpa using hbound
            refine ⟨h.late, fun hstopped _ => h.stopped hstopped hgo, h.counted, ?_⟩
            intro m hm _
            rw [hm] at hbound
            simpa [UInt32.le_iff_toNat_le] using hbound
  · next hphase =>
      split
      · exact hended
      · next hlive =>
          rw [decide_eq_true_eq] at hlive
          have hgo : l.mayGoOn max = true := by rw [mayGoOn, hphase]
          -- A loop that has been stopped would be cancelled.
          have hstopped : l.stopped = false := by
            rw [Bool.eq_false_iff]
            exact fun hstopped => hlive (h.stopped hstopped hgo)
          refine ⟨?_, fun hs => ?_, fun m hm => ?_, fun _ _ hsleep => by cases hsleep⟩
          · show (l.late || l.stopped) = false
            rw [h.late, hstopped]
            rfl
          · rw [hstopped] at hs
            cases hs
          · obtain ⟨hcounted, -⟩ := h.counted m hm
            have hlt := h.sleeping m hm hphase
            have hm' : m.toNat < 2 ^ 32 := m.toNat_lt
            have hnext : (l.iteration + 1).toNat = l.iteration.toNat + 1 := by
              rw [UInt32.toNat_add]
              exact Nat.mod_eq_of_lt (by simp; omega)
            refine ⟨?_, by rw [hnext]; omega⟩
            show 1 + (l.started ++ [_]).length = (l.iteration + 1).toNat
            rw [iterations] at hcounted
            rw [hnext, List.length_append, List.length_singleton]
            omega
  · next hphase =>
      refine ⟨h.late, fun hstopped hgo => h.stopped hstopped ?_, h.counted,
        fun _ _ hsleep => by cases hsleep⟩
      rw [mayGoOn, hphase]
      exact hgo
  · exact h

end BackgroundLoop

/-! ## All loops of a session -/

namespace LoopingSession

variable {s : LoopingSession}

/-- No loop has started an iteration after the session was stopped, and none
has had more of them than it may. -/
structure Stops (max : Option UInt32) (s : LoopingSession) : Prop where
  late : ∀ l ∈ s.loops, l.late = false
  bounded : ∀ l ∈ s.loops, ∀ m, max = some m → l.iterations ≤ m.toNat

def Ok (cfg : SessionConfig) (max : Option UInt32) (s : LoopingSession) : LoopingEvent → Prop
  | .prompt _ => s.taken = false → s.spawns cfg = true → max ≠ some 0
  | .abort | .shutdown | .drop => s.taken = false → ∀ l ∈ s.loops, l.mayGoOn max = true →
      l.token = s.current ∨ l.token ∈ s.cancelled
  | .advance | .dropPrompt | .reset | .loop _ => True

structure Inv (max : Option UInt32) (s : LoopingSession) : Prop where
  sound : ∀ l ∈ s.loops, l.Sound max s.cancelled
  spawning : s.spawning ≠ none → max ≠ some 0

theorem Inv.stops (h : s.Inv max) : s.Stops max where
  late l hl := (h.sound l hl).late
  bounded l hl m hm := by
    obtain ⟨hcounted, hle⟩ := (h.sound l hl).counted m hm
    rw [hcounted]
    exact hle

theorem Inv.goOn (h : s.Inv max) (c : Call) : (s.goOn c).Inv max := by
  rw [LoopingSession.goOn]
  split
  all_goals
    refine ⟨fun l hl => (h.sound l hl).mono ?_, h.spawning⟩
    dsimp only
    split
    · exact List.subset_cons_self _ _
    · exact List.Subset.refl _

theorem Inv.finish (h : s.Inv max) : s.finish.Inv max := by
  rw [LoopingSession.finish]
  split
  · next hspawning =>
      refine ⟨forall_mem_push h.sound (BackgroundLoop.sound_spawn (h.spawning ?_) _ _ _),
        fun hn => absurd rfl hn⟩
      rw [hspawning]
      exact Option.some_ne_none _
  · exact ⟨h.sound, fun hn => absurd rfl hn⟩
  · exact ⟨h.sound, fun hn => absurd rfl hn⟩
  · exact h

theorem Inv.cancel (h : s.Inv max) (c : Call) : (s.cancel c).Inv max :=
  ⟨fun l hl => (h.sound l hl).mono (List.subset_cons_self _ _), h.spawning⟩

/-- The session is stopped, and with it all its loops. -/
theorem Inv.stopped (h : s.Inv max)
    (hok : ∀ l ∈ s.loops, l.mayGoOn max = true → l.token = s.current ∨ l.token ∈ s.cancelled)
    (c : Call) : (s.cancel c).stop.Inv max := by
  refine ⟨fun l' hl' => ?_, h.spawning⟩
  obtain ⟨l, hl, rfl⟩ := List.mem_map.mp hl'
  have hsound := (h.sound l hl).mono (List.subset_cons_self s.current s.cancelled)
  refine ⟨hsound.late, fun _ hgo => ?_, hsound.counted, hsound.sleeping⟩
  exact List.mem_cons.mpr (hok l hl hgo)

theorem Inv.step (h : s.Inv max) (e : LoopingEvent) (hok : s.Ok cfg max e) :
    (s.step cfg max env e).Inv max := by
  cases e with
  | prompt text =>
      rw [LoopingSession.step]
      split
      · exact h
      · next hfree =>
          refine ⟨h.sound, fun hspawning => ?_⟩
          refine hok (Bool.eq_false_iff.mpr hfree) ?_
          by_contra hno
          exact hspawning (if_neg hno)
  | advance =>
      rw [LoopingSession.step]
      split
      · exact (h.goOn _).finish
      · exact h
  | dropPrompt =>
      rw [LoopingSession.step]
      split
      · exact ⟨h.sound, fun hn => absurd rfl hn⟩
      · exact h
  | reset =>
      rw [LoopingSession.step]
      split
      · exact h
      · exact h.cancel _
  | abort | shutdown =>
      rw [LoopingSession.step]
      split
      · exact h
      · next hfree => exact h.stopped (hok (Bool.eq_false_iff.mpr hfree)) _
  | drop =>
      rw [LoopingSession.step]
      split
      · exact h
      · next hfree =>
          have hstopped := h.stopped (hok (Bool.eq_false_iff.mpr hfree))
            (Op.abort.begin cfg env s.call.actor)
          exact ⟨hstopped.sound, hstopped.spawning⟩
  | loop i => exact ⟨forall_mem_modify h.sound (fun _ hl => hl.step) i, h.spawning⟩

theorem stops_of_along_ok (cfg : SessionConfig) (strategy : SessionStrategy) (max : Option UInt32)
    (env : Env) (events : List LoopingEvent)
    (h : Along (step cfg max env) (Ok cfg max) (start cfg strategy) events) :
    (events.foldl (step cfg max env) (start cfg strategy)).Stops max := by
  have hstart : (start cfg strategy).Inv max :=
    ⟨fun _ hl => absurd hl List.not_mem_nil, fun hn => absurd rfl hn⟩
  have hinv : (events.foldl (step cfg max env) (start cfg strategy)).Inv max := by
    refine Along.invariant (fun s e hok hs => ?_) hstart h
    exact hs.step e hok
  exact hinv.stops

/-! ## Loops that go on -/

instance (cfg : SessionConfig) (max : Option UInt32) (s : LoopingSession) :
    ∀ e, Decidable (s.Ok cfg max e)
  | .prompt _ =>
      inferInstanceAs (Decidable (s.taken = false → s.spawns cfg = true → max ≠ some 0))
  | .abort | .shutdown | .drop => inferInstanceAs (Decidable (s.taken = false →
      ∀ l ∈ s.loops, l.mayGoOn max = true → l.token = s.current ∨ l.token ∈ s.cancelled))
  | .advance | .dropPrompt | .reset | .loop _ => inferInstanceAs (Decidable True)

/-- A provider that says it is done. -/
def obliging : Env := { Env.quiet with stream := fun _ => .ok (saying "done") }

def looping : SessionStrategy := ⟨.once, .loop, .accumulate⟩

/-- A prompt and its first run. -/
def wholePrompt : List LoopingEvent := .prompt "go" :: List.replicate 9 .advance

/-- The loop is stopped before its second iteration. -/
theorem stops_aborted :
    ((wholePrompt ++ [LoopingEvent.loop 0, .abort, .loop 0]).foldl
      (step (plainConfig 0) (some 2) obliging) (start (plainConfig 0) looping)).Stops (some 2) := by
  refine stops_of_along_ok (plainConfig 0) looping (some 2) obliging _ ?_
  decide +kernel

/-- The session is prompted again before it is aborted, and the first loop goes
on. And a loop that is to have no iteration at all has had its first. -/
theorem not_stops_prompted_or_zero :
    ¬ ((wholePrompt ++ wholePrompt ++ [LoopingEvent.abort, .loop 0, .loop 0]).foldl
        (step (plainConfig 0) none obliging) (start (plainConfig 0) looping)).Stops none ∧
      ¬ (wholePrompt.foldl (step (plainConfig 0) (some 0) obliging)
        (start (plainConfig 0) looping)).Stops (some 0) := by
  constructor
  · intro h
    have hlate := h.late
    revert hlate
    decide +kernel
  · intro h
    have hbounded := fun l hl => h.bounded l hl 0 rfl
    revert hbounded
    decide +kernel

end LoopingSession

end Pandaria.Agent
