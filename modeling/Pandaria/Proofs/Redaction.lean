import Pandaria.Agent.Hooks
import Pandaria.Proofs.Confinement
import Pandaria.Proofs.Objects

/-!
# What the path guard leaves in a result

A result whose details name a path outside the workspace loses its content, and is marked
as an error. Its details are not touched: the mutation has nothing to say about them, and
nothing is what leaves them as they are. So a path that is found stays where it was found,
unless the terminate flag is written over it.
-/

namespace Pandaria.Agent

open Pandaria.Ai
open Pandaria.Lib

variable {d : DefaultHookDispatcher} {tenantId : String}

/-! ## Texts -/

mutual

/-- All texts of a value, the keys among them. -/
def valueTexts : Json → List String
  | .str s => [s]
  | .arr elems => elemsTexts elems
  | .obj fields => fieldsTexts fields
  | .null | .bool _ | .num _ => []

def elemsTexts : List Json → List String
  | [] => []
  | v :: rest => valueTexts v ++ elemsTexts rest

def fieldsTexts : List (String × Json) → List String
  | [] => []
  | (k, v) :: rest => k :: valueTexts v ++ fieldsTexts rest

end

def contentTexts : Content → List String
  | .text text signature => text :: signature.toList
  | .image data mimeType => [data, mimeType]
  | .video data mimeType => [data, mimeType]
  | .audio data mimeType => [data, mimeType]
  | .thinking thinking signature _ => thinking :: signature.toList
  | .toolCall tc => tc.id :: tc.name :: tc.thoughtSignature.toList ++ valueTexts tc.arguments

/-- A path stands in one of the texts, or is one of them. -/
def Stands (path : String) (texts : List String) : Prop :=
  ∃ text ∈ texts, path.toList <:+: text.toList

/-! ## The claim -/

/-- What the guard finds in a result: the paths that are not those of the tenant. -/
def found (d : DefaultHookDispatcher) (tenantId : String) (result : AgentToolResult) :
    List String :=
  (DefaultHookDispatcher.resultPaths result.details).filter fun path =>
    !isPathAllowed d.space path tenantId

/-- Of what the guard finds in a result, nothing is left in the result of the call. -/
def Redacted (d : DefaultHookDispatcher) (tenantId : String) (env : Env) (tc : ToolCall)
    (w : World) : Prop :=
  ∀ result m w', (env.execute (w.now + 1)).result = .ok result →
    (d.onToolCall ⟨tenantId, tc.name, tc.arguments⟩).1 = .continue_ →
      Hook.executeGuarded d tenantId env tc w = some (.ok m, w') →
        ∀ path ∈ found d tenantId result,
          ¬ Stands path (m.content.flatMap contentTexts) ∧
            ∀ details, m.details = some details → ¬ Stands path (valueTexts details)

/-- What the guard finds in a result is where the terminate flag will be written, and
nowhere else in the details, or there is no way to write it there. -/
def Overwritten (d : DefaultHookDispatcher) (tenantId : String) (result : AgentToolResult) : Prop :=
  ∀ path ∈ found d tenantId result, result.terminate = true ∧
    ∀ fields, result.details = some (.obj fields) →
      ¬ Stands path (fieldsTexts (fields.filter fun f => f.1 ≠ "_terminate"))

/-! ## What is found -/

mutual

theorem collectStringPaths_subset (v : Json) : collectStringPaths v ⊆ valueTexts v := by
  cases v with
  | str s =>
      rw [collectStringPaths, valueTexts]
      split
      · exact List.Subset.refl _
      · exact List.nil_subset _
  | arr elems => exact collectElems_subset elems
  | obj fields => exact collectFields_subset fields
  | null | bool _ | num _ => exact List.nil_subset _

theorem collectElems_subset (elems : List Json) : collectElems elems ⊆ elemsTexts elems := by
  cases elems with
  | nil => exact List.nil_subset _
  | cons v rest =>
      intro path h
      rcases List.mem_append.mp h with h | h
      · exact List.mem_append_left _ (collectStringPaths_subset v h)
      · exact List.mem_append_right _ (collectElems_subset rest h)

theorem collectFields_subset (fields : List (String × Json)) :
    collectFields fields ⊆ fieldsTexts fields := by
  cases fields with
  | nil => exact List.nil_subset _
  | cons f rest =>
      intro path h
      refine List.mem_cons_of_mem _ ?_
      rcases List.mem_append.mp h with h | h
      · exact List.mem_append_left _ (collectStringPaths_subset f.2 h)
      · exact List.mem_append_right _ (collectFields_subset rest h)

end

theorem Stands.of_mem {path : String} {texts : List String} (h : path ∈ texts) :
    Stands path texts :=
  ⟨path, h, List.infix_rfl⟩

theorem fieldsTexts_eq (fields : List (String × Json)) :
    fieldsTexts fields = fields.flatMap fun f => f.1 :: valueTexts f.2 := by
  induction fields with
  | nil => rfl
  | cons f rest ih => rw [fieldsTexts, ih, List.flatMap_cons]

theorem stands_fields {path : String} {fields : List (String × Json)} :
    Stands path (fieldsTexts fields) ↔ ∃ f ∈ fields, Stands path (f.1 :: valueTexts f.2) := by
  simp only [Stands, fieldsTexts_eq, List.mem_flatMap]
  constructor
  · rintro ⟨text, ⟨f, hf, htext⟩, hpath⟩
    exact ⟨f, hf, text, htext, hpath⟩
  · rintro ⟨f, hf, text, htext, hpath⟩
    exact ⟨text, ⟨f, hf, htext⟩, hpath⟩

theorem mem_found {path : String} {result : AgentToolResult} :
    path ∈ found d tenantId result ↔
      path ∈ DefaultHookDispatcher.resultPaths result.details ∧
        isPathAllowed d.space path tenantId = false := by
  rw [found, List.mem_filter, Bool.not_eq_true']

mutual

theorem looksLikePath_of_mem {path : String} (v : Json) (h : path ∈ collectStringPaths v) :
    looksLikePath path = true := by
  cases v with
  | str s =>
      rw [collectStringPaths] at h
      split at h
      next hlooks =>
        rw [List.mem_singleton.mp h]
        exact hlooks
      next => cases h
  | arr elems => exact looksLikePath_of_elems elems h
  | obj fields => exact looksLikePath_of_fields fields h
  | null | bool _ | num _ => cases h

theorem looksLikePath_of_elems {path : String} (elems : List Json)
    (h : path ∈ collectElems elems) : looksLikePath path = true := by
  cases elems with
  | nil => cases h
  | cons v rest =>
      rcases List.mem_append.mp h with h | h
      · exact looksLikePath_of_mem v h
      · exact looksLikePath_of_elems rest h

theorem looksLikePath_of_fields {path : String} (fields : List (String × Json))
    (h : path ∈ collectFields fields) : looksLikePath path = true := by
  cases fields with
  | nil => cases h
  | cons f rest =>
      rcases List.mem_append.mp h with h | h
      · exact looksLikePath_of_mem f.2 h
      · exact looksLikePath_of_fields rest h

end

/-- A relative path is let through, so what is found has a separator in it. -/
theorem slash_mem_of_found {path : String} {result : AgentToolResult}
    (h : path ∈ found d tenantId result) : '/' ∈ path.toList := by
  obtain ⟨hpath, hillegal⟩ := mem_found.mp h
  have hne : path ≠ "" := by
    rintro rfl
    cases hdetails : result.details with
    | none =>
        rw [hdetails] at hpath
        cases hpath
    | some v =>
        rw [hdetails] at hpath
        exact absurd (looksLikePath_of_mem v hpath) (by decide)
  cases habs : isAbsolute path with
  | true => exact List.mem_of_mem_head? (of_decide_eq_true habs)
  | false =>
      rw [allowed_of_relative d.space tenantId habs hne] at hillegal
      cases hillegal

theorem not_stands_of_plain {path : String} {texts : List String} (hpath : '/' ∈ path.toList)
    (h : ∀ text ∈ texts, '/' ∉ text.toList) : ¬ Stands path texts := by
  rintro ⟨text, htext, hwithin⟩
  exact h text htext (hwithin.subset hpath)

/-! ## What the guard answers -/

theorem onToolResult_found {result : AgentToolResult} (h : found d tenantId result ≠ []) :
    d.onToolResult ⟨tenantId, result.details⟩ =
      { content := some [.text "[PathGuard: illegal path reference removed]" none]
        details := none
        isError := some true
        terminate := none } := by
  obtain ⟨path, hpath⟩ := List.exists_mem_of_ne_nil _ h
  obtain ⟨hmem, hillegal⟩ := mem_found.mp hpath
  rw [DefaultHookDispatcher.onToolResult]
  split
  · rfl
  · next hnone =>
      have hallowed := List.find?_eq_none.mp hnone path hmem
      rw [hillegal] at hallowed
      exact absurd rfl hallowed

/-- It never has anything to say about the details, or the terminate flag. -/
theorem embedTerminate_onToolResult (result : AgentToolResult) :
    ((d.onToolResult ⟨tenantId, result.details⟩).apply result).embedTerminate =
      result.embedTerminate := by
  rw [DefaultHookDispatcher.onToolResult]
  split <;> rfl

/-- Of what is found nothing is left in the content. -/
theorem not_stands_content {path : String} {result : AgentToolResult}
    (h : path ∈ found d tenantId result) :
    ¬ Stands path (((d.onToolResult ⟨tenantId, result.details⟩).apply result).content.flatMap
      contentTexts) := by
  rw [onToolResult_found (List.ne_nil_of_mem h)]
  refine not_stands_of_plain (slash_mem_of_found h) fun text htext => ?_
  rw [List.mem_singleton.mp htext]
  decide

/-! ## The details -/

/-- A field the flag is written into no longer names a path, and the others are as they were. -/
theorem stands_insert_iff {path : String} (hpath : '/' ∈ path.toList)
    (fields : List (String × Json)) :
    ∃ details, (Json.obj fields).insert "_terminate" (.bool true) = some details ∧
      (Stands path (valueTexts details) ↔
        Stands path (fieldsTexts (fields.filter fun f => f.1 ≠ "_terminate"))) := by
  obtain ⟨fields', hinsert, hmem⟩ := mem_insert_obj fields "_terminate" (.bool true)
  refine ⟨_, hinsert, ?_⟩
  rw [valueTexts, stands_fields, stands_fields]
  have hflag : ¬ Stands path ["_terminate"] := by
    refine not_stands_of_plain hpath fun text htext => ?_
    rw [List.mem_singleton.mp htext]
    decide
  constructor
  · rintro ⟨f, hf, hstands⟩
    rcases (hmem f).mp hf with ⟨hf, hkey⟩ | rfl
    · exact ⟨f, List.mem_filter.mpr ⟨hf, decide_eq_true hkey⟩, hstands⟩
    · exact absurd hstands hflag
  · rintro ⟨f, hf, hstands⟩
    obtain ⟨hf, hkey⟩ := List.mem_filter.mp hf
    exact ⟨f, (hmem f).mpr (.inl ⟨hf, of_decide_eq_true hkey⟩), hstands⟩

/-- What is found stays in the details, unless the flag is written over it, or cannot be. -/
theorem stays_iff {path : String} {result : AgentToolResult}
    (h : path ∈ found d tenantId result) :
    (∀ details, result.embedTerminate = some details → ¬ Stands path (valueTexts details)) ↔
      result.terminate = true ∧ ∀ fields, result.details = some (.obj fields) →
        ¬ Stands path (fieldsTexts (fields.filter fun f => f.1 ≠ "_terminate")) := by
  have hslash := slash_mem_of_found h
  obtain ⟨hpath, -⟩ := mem_found.mp h
  cases hdetails : result.details with
  | none =>
      rw [hdetails] at hpath
      cases hpath
  | some v =>
      rw [hdetails] at hpath
      rw [AgentToolResult.embedTerminate, hdetails, Option.getD_some]
      cases result.terminate with
      | false =>
          refine iff_of_false (fun hleft => ?_) fun hset => Bool.noConfusion hset.1
          exact hleft v rfl (.of_mem (collectStringPaths_subset v hpath))
      | true =>
          rw [if_pos rfl]
          cases v with
          | obj fields =>
              obtain ⟨details, hinsert, hiff⟩ := stands_insert_iff hslash fields
              rw [hinsert]
              constructor
              · intro hleft
                refine ⟨rfl, fun fields' hsame => ?_⟩
                injection hsame with hsame
                injection hsame with hsame
                rw [← hsame, ← hiff]
                exact hleft details rfl
              · rintro ⟨-, hfields⟩ details' hsame
                injection hsame with hsame
                rw [← hsame, hiff]
                exact hfields fields rfl
          | null => cases hpath
          | bool _ | num _ | str _ | arr _ =>
              refine iff_of_true (fun details hsome => ?_) ⟨rfl, fun fields hsame => ?_⟩
              · cases hsome
              · cases hsame

/-! ## A call -/

/-- How a call with the guards ends when the tool is let through and answers. -/
theorem executeGuarded_ok {env : Env} {tc : ToolCall} {w : World} {result : AgentToolResult}
    (hok : (env.execute (w.now + 1)).result = .ok result)
    (hpass : (d.onToolCall ⟨tenantId, tc.name, tc.arguments⟩).1 = .continue_) :
    ∃ w', Hook.executeGuarded d tenantId env tc w =
      let result := (d.onToolResult ⟨tenantId, result.details⟩).apply result
      result.embedTerminate.map fun details =>
        (.ok {
          toolCallId := tc.id
          toolName := tc.name
          content := result.content
          details := some details
          isError := result.isError
          timestamp := env.clock (w.now + 3) }, w') := by
  have hexec : ((Hook.guardedEnv d tenantId env tc w).execute (w.now + 1)).result = .ok result :=
    hok
  have hresult : (Hook.guardedEnv d tenantId env tc w).onToolResult (w.now + 2) =
      d.onToolResult ⟨tenantId, result.details⟩ := by
    rw [Hook.guardedEnv]
    dsimp only
    rw [hok]
  rw [Hook.executeGuarded]
  rcases executeToolCall_cases (Hook.guardedEnv d tenantId env tc w) tc w with
    ⟨reason, input, hblock, hcall⟩ | ⟨input, _, ⟨e, herror, hcall⟩ | ⟨result', hok', hcall⟩⟩
  · have hblock' := (congrArg Prod.fst hblock).symm.trans hpass
    cases hblock'
  · have hsame := hexec.symm.trans herror
    cases hsame
  · injection hexec.symm.trans hok' with hsame
    rw [← hsame, hresult] at hcall
    exact ⟨_, hcall⟩

/-- Nothing that is found is left exactly when all of it is where the terminate flag goes. -/
theorem redacted_iff (d : DefaultHookDispatcher) (tenantId : String) (env : Env) (tc : ToolCall)
    (w : World) :
    Redacted d tenantId env tc w ↔
      ∀ result, (env.execute (w.now + 1)).result = .ok result →
        (d.onToolCall ⟨tenantId, tc.name, tc.arguments⟩).1 = .continue_ →
          Overwritten d tenantId result := by
  constructor
  · intro h result hok hpass path hpath
    obtain ⟨w', hcall⟩ := executeGuarded_ok hok hpass
    refine (stays_iff hpath).mp fun details hembed => ?_
    rw [← @embedTerminate_onToolResult d tenantId] at hembed
    dsimp only at hcall
    rw [hembed, Option.map_some] at hcall
    exact (h result _ w' hok hpass hcall path hpath).2 details rfl
  · intro h result m w'' hok hpass hreturn path hpath
    obtain ⟨w', hcall⟩ := executeGuarded_ok hok hpass
    rw [hcall] at hreturn
    obtain ⟨details, hembed, hpair⟩ := Option.map_eq_some_iff.mp hreturn
    injection hpair with hm _
    injection hm with hm
    rw [← hm]
    refine ⟨not_stands_content hpath, fun details' hdetails => ?_⟩
    injection hdetails with hdetails
    rw [embedTerminate_onToolResult] at hembed
    rw [← hdetails]
    exact (stays_iff hpath).mpr (h result hok hpass path hpath) details hembed

/-- A tool that tells where it has been. -/
theorem not_redacted :
    ¬ Redacted readGuard "acme" { Env.quiet with execute := fun _ => ⟨[], .ok ⟨[],
        some (.obj [("path", .str "/data/workspaces/beta/a.txt")]), false, false⟩⟩ }
      ⟨"1", "read", .null, none⟩ .fresh := by
  intro h
  have hleft := (h _ _ _ rfl rfl rfl "/data/workspaces/beta/a.txt" (by decide)).2 _ rfl
  exact hleft ⟨_, by decide, List.infix_rfl⟩

end Pandaria.Agent
