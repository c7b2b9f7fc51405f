import Pandaria.Lib.Run
import Pandaria.Lib.Threads
import Pandaria.Tenant.Deletion

/-!
# A deleted session is at rest

A call has the lock of the shard from when it finds the session until it
returns, so the removal waits for all of them, and none finds the session
afterwards. What `delete_session` says of an operation in flight is therefore
about nothing: when it gives back the slot and waits for the actor, there is
none.
-/

namespace Pandaria.Tenant

open Pandaria.Lib
open Pandaria.Agent

variable {cfg : SessionConfig} {env : Env} {s : Deletion}

/-- The delete has removed the entry. -/
def DeletePhase.hasRemoved : DeletePhase → Bool
  | .called | .returned false => false
  | .removed | .released | .shut | .returned true => true

namespace Deletion

structure Inv (s : Deletion) : Prop where
  readers : s.lock.readers = s.callers.countP Caller.isActive + s.others
  /-- A turn in flight is that of a call. -/
  inFlight : s.call.inProgress = true → s.callers.any Caller.isRunning = true
  absent : s.present = false → s.callers.countP Caller.isActive = 0
  slot : s.slot = false → s.present = false
  removed : ∀ phase ∈ s.deletions, phase.hasRemoved = true → s.present = false
  late : s.late = []

theorem isActive_of_isRunning {c : Caller} (h : c.isRunning = true) : c.isActive = true := by
  cases c with
  | running => rfl
  | found op => cases h
  | gone => cases h

theorem active_pos_of_running (h : s.callers.any Caller.isRunning = true) :
    0 < s.callers.countP Caller.isActive := by
  obtain ⟨c, hc, hrunning⟩ := List.any_eq_true.mp h
  exact List.countP_pos_iff.mpr ⟨c, hc, isActive_of_isRunning hrunning⟩

/-- While a call is there the session is, and its slot. -/
theorem Inv.slot_of_active (h : s.Inv) (hactive : 0 < s.callers.countP Caller.isActive) :
    s.slot = true := by
  cases hslot : s.slot with
  | true => rfl
  | false =>
      have hnone := h.absent (h.slot hslot)
      omega

theorem goOn_late (h : s.slot = true) (c : Call) : (s.goOn c).late = s.late := by
  unfold goOn
  rw [h]
  rfl

theorem cutOff_inProgress (c : Call) : (cutOff c).inProgress = false := by
  unfold cutOff
  split
  · rfl
  · rename_i h
    exact Bool.eq_false_iff.mpr h

theorem cancel_inProgress (c : Call) : c.cancel.inProgress = c.inProgress := by
  unfold Call.cancel Call.inProgress
  cases c.phase <;> rfl

/-! ## The calls -/

theorem Inv.call (h : s.Inv) (op : Op) : (s.step cfg env (.call op)).Inv := by
  rw [step]
  split
  · rename_i hfound
    refine ⟨?_, fun hcall => ?_, fun habsent => ?_, h.slot, h.removed, h.late⟩
    · have hreaders := h.readers
      change s.lock.readers + 1 = (s.callers ++ [Caller.found op]).countP Caller.isActive + s.others
      rw [List.countP_append, List.countP_singleton]
      change s.lock.readers + 1 = s.callers.countP Caller.isActive + 1 + s.others
      omega
    · rw [List.any_append, h.inFlight hcall]
      rfl
    · rw [hfound.2] at habsent
      cases habsent
  · exact h

theorem Inv.start (h : s.Inv) (i : Nat) : (s.step cfg env (.start i)).Inv := by
  rw [step]
  split
  · rename_i op hi
    split
    · exact h
    · have hactive : 0 < s.callers.countP Caller.isActive := countP_pos_of_getElem? hi rfl
      have hcount : (s.callers.set i .running).countP Caller.isActive =
          s.callers.countP Caller.isActive :=
        Nat.add_right_cancel (countP_set_add hi .running Caller.isActive)
      refine ⟨h.readers.trans (by rw [← hcount]; rfl), fun _ => ?_, fun habsent => ?_, h.slot,
        h.removed, ?_⟩
      · exact List.any_eq_true.mpr
          ⟨.running, List.mem_set (List.getElem?_eq_some_iff.mp hi).1 _, rfl⟩
      · exact hcount.trans (h.absent habsent)
      · exact (goOn_late (h.slot_of_active hactive) _).trans h.late
  · exact h

theorem Inv.advance (h : s.Inv) : (s.step cfg env .advance).Inv := by
  rw [step]
  split
  · rename_i hrunning
    have hslot := h.slot_of_active (active_pos_of_running hrunning)
    exact ⟨h.readers, fun _ => hrunning, h.absent, h.slot, h.removed,
      (goOn_late hslot _).trans h.late⟩
  · exact h

/-- A call that leaves takes its reference with it. -/
theorem Inv.left (h : s.Inv) {i : Nat} {c : Caller} (hi : s.callers[i]? = some c)
    (hactive : c.isActive = true) {d : Call}
    (hd : d.inProgress = true → (s.callers.set i .gone).any Caller.isRunning = true) :
    Inv { s with
      call := d
      lock := { s.lock with readers := s.lock.readers - 1 }
      callers := s.callers.set i .gone } := by
  have hcount := countP_set_add hi .gone Caller.isActive
  rw [hactive, if_pos rfl] at hcount
  change _ + 1 = _ + 0 at hcount
  refine ⟨?_, hd, fun habsent => ?_, h.slot, h.removed, h.late⟩
  · have hreaders := h.readers
    change s.lock.readers - 1 = (s.callers.set i .gone).countP Caller.isActive + s.others
    omega
  · have hnone := h.absent habsent
    change (s.callers.set i .gone).countP Caller.isActive = 0
    omega

theorem Inv.leave (h : s.Inv) (i : Nat) : (s.step cfg env (.leave i)).Inv := by
  rw [step]
  split
  · rename_i op hi
    refine h.left hi rfl fun hcall => ?_
    -- The turn in flight is that of another call.
    obtain ⟨j, hj⟩ := List.any_eq_true.mp (h.inFlight hcall)
    obtain ⟨k, hk⟩ := List.getElem?_of_mem hj.1
    have hne : i ≠ k := by
      intro heq
      rw [heq, hk] at hi
      injection hi with hi
      rw [hi] at hj
      cases hj.2
    refine List.any_eq_true.mpr ⟨j, List.mem_of_getElem? (i := k) ?_, hj.2⟩
    rw [List.getElem?_set_ne hne]
    exact hk
  · rename_i hi
    refine h.left hi rfl fun hcall => ?_
    rw [cutOff_inProgress] at hcall
    cases hcall
  · exact h

/-! ## The others, and the deletes -/

theorem Inv.others (h : s.Inv) :
    (s.step cfg env .borrow).Inv ∧ (s.step cfg env .giveBack).Inv ∧
      (s.step cfg env .borrowMut).Inv ∧ (s.step cfg env .giveBackMut).Inv := by
  have hreaders := h.readers
  refine ⟨?_, ?_, ?_, h.readers, h.inFlight, h.absent, h.slot, h.removed, h.late⟩
  · rw [step]
    split
    · exact h
    · refine ⟨?_, h.inFlight, h.absent, h.slot, h.removed, h.late⟩
      change s.lock.readers + 1 = s.callers.countP Caller.isActive + (s.others + 1)
      omega
  · rw [step]
    split
    · exact h
    · refine ⟨?_, h.inFlight, h.absent, h.slot, h.removed, h.late⟩
      change s.lock.readers - 1 = s.callers.countP Caller.isActive + (s.others - 1)
      omega
  · rw [step]
    split
    · exact ⟨h.readers, h.inFlight, h.absent, h.slot, h.removed, h.late⟩
    · exact h

/-- A delete that had removed the entry, or has found none, goes on. -/
theorem removed_set {i : Nat} {phase next : DeletePhase} {present : Bool}
    (h : ∀ p ∈ s.deletions, p.hasRemoved = true → present = false)
    (hi : s.deletions[i]? = some phase) (hnext : next.hasRemoved = true → phase.hasRemoved = true) :
    ∀ p ∈ s.deletions.set i next, p.hasRemoved = true → present = false :=
  forall_mem_set h (fun hr => h phase (List.mem_of_getElem? hi) (hnext hr)) i

theorem Inv.deleteStep (h : s.Inv) {i : Nat} {phase : DeletePhase}
    (hi : s.deletions[i]? = some phase) : (s.deleteStep i phase).Inv := by
  cases phase with
  | called =>
      rw [Deletion.deleteStep]
      split
      · rename_i hlock
        split
        · -- Nobody has a reference, so no call is there.
          have hnone : s.callers.countP Caller.isActive = 0 := by
            have hreaders := h.readers
            omega
          exact ⟨h.readers, h.inFlight, fun _ => hnone, fun _ => rfl, fun _ _ _ => rfl, h.late⟩
        · exact ⟨h.readers, h.inFlight, h.absent, h.slot,
            removed_set h.removed hi fun hr => absurd hr Bool.false_ne_true, h.late⟩
      · exact h
  | removed =>
      exact ⟨h.readers, h.inFlight, h.absent,
        fun _ => h.removed _ (List.mem_of_getElem? hi) rfl,
        removed_set h.removed hi fun _ => rfl, h.late⟩
  | released =>
      rw [Deletion.deleteStep]
      split
      · exact h
      · exact ⟨h.readers, fun hcall => h.inFlight ((cancel_inProgress _).symm.trans hcall), h.absent,
          h.slot, removed_set h.removed hi fun _ => rfl, h.late⟩
  | shut =>
      exact ⟨h.readers, fun hcall => h.inFlight ((cancel_inProgress _).symm.trans hcall), h.absent,
        h.slot, removed_set h.removed hi fun _ => rfl, h.late⟩
  | returned found => exact h

theorem Inv.step (h : s.Inv) (e : DeletionEvent) : (s.step cfg env e).Inv := by
  cases e with
  | call op => exact h.call op
  | start i => exact h.start i
  | advance => exact h.advance
  | leave i => exact h.leave i
  | borrow => exact h.others.1
  | giveBack => exact h.others.2.1
  | borrowMut => exact h.others.2.2.1
  | giveBackMut => exact h.others.2.2.2
  | delete =>
      exact ⟨h.readers, h.inFlight, h.absent, h.slot,
        forall_mem_push h.removed fun hr => absurd hr Bool.false_ne_true, h.late⟩
  | step i =>
      rw [Deletion.step]
      split
      · rename_i phase hi
        exact h.deleteStep hi
      · exact h

theorem inv_start (cfg : SessionConfig) : (Deletion.start cfg).Inv where
  readers := rfl
  inFlight hcall := absurd hcall Bool.false_ne_true
  absent _ := rfl
  slot hslot := hslot
  removed _ hmem := absurd hmem List.not_mem_nil
  late := rfl

/-- A delete that comes while a call runs waits for it to return. -/
example (content : List Ai.Content) :
    ([.call (.promptWithContent content), .start 0, .delete, .step 0].foldl (step cfg env)
      (.start cfg)).deletions = [.called] :=
  rfl

end Deletion

end Pandaria.Tenant
