import Pandaria.Agent.Tool
import Pandaria.Proofs.Objects

/-!
# The terminate flag of a result

The flag travels in the details of a result: the executor writes it there, and the
agent loop looks for it. It is written when it is set and left alone when it is not,
so details that come with the key speak for the tool; and it is written whatever the
details are, so any but an object are a panic.
-/

namespace Pandaria.Agent

open Pandaria.Ai

variable {env : Env} {tc : ToolCall} {w : World}

/-! ## Details -/

/-- The agent loop finds the flag in the details. -/
def marked (details : Json) : Bool := ((details.get "_terminate").bind Json.asBool).getD false

/-- A flag that is set has a place in the details, and one that is not is not in them. -/
structure Markable (details : Option Json) (terminate : Bool) : Prop where
  room : terminate = true → ∀ d, details = some d → d = .null ∨ d.isObject = true
  unmarked : terminate = false → ∀ d, details = some d → d.get "_terminate" ≠ some (.bool true)

theorem marked_iff (details : Json) :
    marked details = true ↔ details.get "_terminate" = some (.bool true) := by
  rw [marked]
  cases details.get "_terminate" with
  | none => exact iff_of_false (fun h => by cases h) fun h => by cases h
  | some v =>
      cases v with
      | bool b =>
          cases b with
          | true => exact iff_of_true rfl rfl
          | false => exact iff_of_false (fun h => by cases h) fun h => by cases h
      | null | num _ | str _ | arr _ | obj _ =>
          exact iff_of_false (fun h => by cases h) fun h => by cases h

/-- Writing and reading a set flag. -/
theorem embed_set_iff (details : Option Json) :
    (∃ d, (details.getD (.obj [])).insert "_terminate" (.bool true) = some d ∧ marked d = true) ↔
      Markable details true := by
  have hread : (∃ d, (details.getD (.obj [])).insert "_terminate" (.bool true) = some d ∧
      marked d = true) ↔ ((details.getD (.obj [])).insert "_terminate" (.bool true)).isSome := by
    rw [Option.isSome_iff_exists]
    refine exists_congr fun d => and_iff_left_of_imp fun h => ?_
    exact (marked_iff d).mpr (get_insert h)
  rw [hread, isSome_insert_iff]
  constructor
  · intro h
    refine ⟨fun _ d hd => ?_, fun hf => Bool.noConfusion hf⟩
    rw [hd] at h
    exact h
  · intro h
    cases details with
    | none => exact .inr rfl
    | some d => exact h.room rfl d rfl

/-- And a flag that is not set is not written. -/
theorem embed_unset_iff (details : Option Json) :
    marked (details.getD (.obj [])) = false ↔ Markable details false := by
  rw [← Bool.not_eq_true, marked_iff]
  constructor
  · intro h
    refine ⟨fun hf => Bool.noConfusion hf, fun _ d hd => ?_⟩
    rw [hd] at h
    exact h
  · intro h
    cases details with
    | none => exact fun hf => by cases hf
    | some d => exact h.unmarked rfl d rfl

theorem embedTerminate_iff (r : AgentToolResult) :
    (∃ d, r.embedTerminate = some d ∧ marked d = r.terminate) ↔
      Markable r.details r.terminate := by
  rw [AgentToolResult.embedTerminate]
  cases r.terminate with
  | true => exact embed_set_iff r.details
  | false =>
      refine Iff.trans ?_ (embed_unset_iff r.details)
      constructor
      · rintro ⟨d, hd, hmarked⟩
        injection hd with hd
        rw [hd]
        exact hmarked
      · exact fun h => ⟨_, rfl, h⟩

/-! ## The flag -/

/-- What the tool and the hooks decide, in a call that gets that far. -/
def decidedFlag (env : Env) (w : World) : Bool :=
  match (env.onToolCall w.now).1, (env.execute (w.now + 1)).result with
  | .continue_, .ok result => (env.onToolResult (w.now + 2)).terminate.getD result.terminate
  | _, _ => false

/-- The call returns, and of the result it returns the agent loop reads what was decided. -/
def FlagRead (env : Env) (tc : ToolCall) (w : World) : Prop :=
  ∃ outcome w', executeToolCall env tc w = some (outcome, w') ∧
    ∀ m, outcome = .ok m → isTerminated m = decidedFlag env w

/-- A result that comes back is read as decided exactly when the flag goes into the
details, if it is set, and is not in them, if it is not. -/
theorem flag_read_iff (env : Env) (tc : ToolCall) (w : World) :
    FlagRead env tc w ↔
      ∀ result, (env.onToolCall w.now).1 = .continue_ →
        (env.execute (w.now + 1)).result = .ok result →
          Markable ((env.onToolResult (w.now + 2)).details.or result.details)
            ((env.onToolResult (w.now + 2)).terminate.getD result.terminate) := by
  rcases executeToolCall_cases env tc w with
    ⟨reason, input, hblock, hcall⟩ | ⟨input, hpass, ⟨e, herror, hcall⟩ | ⟨result, hok, hcall⟩⟩
  · refine iff_of_true ⟨_, _, hcall, fun m hm => ?_⟩ fun result hpass _ => ?_
    · injection hm with hm
      rw [← hm, decidedFlag, hblock]
      rfl
    · rw [hblock] at hpass
      cases hpass
  · refine iff_of_true ⟨_, _, hcall, fun m hm => ?_⟩ fun result _ hok => ?_
    · cases hm
    · rw [herror] at hok
      cases hok
  · have hdecided : decidedFlag env w =
        ((env.onToolResult (w.now + 2)).apply result).terminate := by
      rw [decidedFlag, hpass, hok]
      rfl
    have hembedded := embedTerminate_iff ((env.onToolResult (w.now + 2)).apply result)
    refine Iff.trans ?_ (hembedded.trans ?_)
    · rw [FlagRead, hdecided, hcall]
      constructor
      · rintro ⟨outcome, w'', hsome, hread⟩
        obtain ⟨details, hembed, hpair⟩ := Option.map_eq_some_iff.mp hsome
        injection hpair with houtcome _
        exact ⟨details, hembed, hread _ houtcome.symm⟩
      · rintro ⟨details, hembed, hmarked⟩
        refine ⟨_, _, Option.map_eq_some_iff.mpr ⟨details, hembed, rfl⟩, fun m hm => ?_⟩
        injection hm with hm
        rw [← hm]
        exact hmarked
    · constructor
      · intro h result' _ hok'
        rw [hok] at hok'
        injection hok' with hsame
        rw [← hsame]
        exact h
      · exact fun h => h result (congrArg Prod.fst hpass) hok

/-- A list as details and a tool that is done; and details in which a tool that is not
done has used the key. -/
theorem not_flag_read :
    ¬ FlagRead { Env.quiet with execute := fun _ => ⟨[], .ok ⟨[], some (.arr []), false, true⟩⟩ }
        ⟨"1", "read", .null, none⟩ .fresh ∧
      ¬ FlagRead { Env.quiet with execute := fun _ => ⟨[], .ok ⟨[],
          some (.obj [("_terminate", .bool true)]), false, false⟩⟩ }
        ⟨"1", "read", .null, none⟩ .fresh := by
  constructor
  · rintro ⟨outcome, w', hcall, -⟩
    cases hcall
  · rintro ⟨outcome, w', hcall, hread⟩
    injection hcall with hcall
    injection hcall with houtcome _
    have hflag := hread _ houtcome.symm
    revert hflag
    decide

end Pandaria.Agent
