import Pandaria.Ai.Validation

/-!
# The validation of arguments

## The schema cache is not noticed

Calls take the lock of the cache one after the other, whoever makes them, and touch it
nowhere else, so what has happened to it is a list of calls. What it keeps under the
name of a tool is whatever schema was compiled last for a tool of that name, and that
is compared before it is used: every validator kept is that of the schema beside it.
-/

namespace Pandaria.Ai

open Pandaria.Lib

variable {V : Type} (js : JsonSchema V)

/-- The answer to a call for which its own schema is compiled. -/
def validateAfresh (tool : ToolDef) (toolCall : ToolCall) : Except ValidationError Json :=
  checkArguments js tool (coerceValue js toolCall.arguments tool.parameters)
    (js.validatorFor tool.parameters)

/-- Calls in the order in which they take the lock. -/
def validateAll (cache : SchemaCache V) :
    List (ToolDef × ToolCall) → List (Except ValidationError Json) × SchemaCache V
  | [] => ([], cache)
  | (tool, toolCall) :: rest =>
      let (answer, cache) := validateToolArguments js cache tool toolCall
      let (answers, cache) := validateAll cache rest
      (answer :: answers, cache)

/-- Schemas that are equal as values compile to the same validator. -/
def Deterministic : Prop := ∀ a b : Json, a.eqv b = true → js.validatorFor a = js.validatorFor b

variable {js}

/-- A call leaves the cache sound. -/
theorem sound_validateToolArguments {cache : SchemaCache V} (h : cache.Sound js.validatorFor)
    (tool : ToolDef) (toolCall : ToolCall) :
    (validateToolArguments js cache tool toolCall).2.Sound js.validatorFor :=
  h.ask tool.name tool.parameters

theorem validateToolArguments_fst {cache : SchemaCache V} (hdet : Deterministic js)
    (h : cache.Sound js.validatorFor) (tool : ToolDef) (toolCall : ToolCall) :
    (validateToolArguments js cache tool toolCall).1 = validateAfresh js tool toolCall := by
  have hask := h.ask_fst hdet tool.name tool.parameters
  rw [validateAfresh, ← hask]
  rfl

theorem validateAll_of_sound {cache : SchemaCache V} (hdet : Deterministic js)
    (h : cache.Sound js.validatorFor) (calls : List (ToolDef × ToolCall)) :
    (validateAll js cache calls).1 = calls.map fun c => validateAfresh js c.1 c.2 := by
  induction calls generalizing cache with
  | nil => rfl
  | cons call rest ih =>
      obtain ⟨tool, toolCall⟩ := call
      have hrest := ih (sound_validateToolArguments h tool toolCall)
      rw [List.map_cons, ← hrest, ← validateToolArguments_fst hdet h]
      rfl

/-- Every call is answered as if its own schema had been compiled for it, after any
calls before it. -/
theorem validateAll_eq_afresh (js : JsonSchema V) (hdet : Deterministic js)
    (calls : List (ToolDef × ToolCall)) :
    (validateAll js Table.empty calls).1 = calls.map fun c => validateAfresh js c.1 c.2 :=
  validateAll_of_sound hdet Memo.sound_empty calls

/-- An instance that knows the empty schema, which accepts everything, and takes
anything else for a number. -/
def emptySchema : JsonSchema Unit where
  validatorFor schema :=
    if schema = .obj [] then .ok ()
    else .error "1 is not of types \"boolean\", \"object\""
  isValid _ _ := true
  iterErrors _ _ := []
  parseF64 _ := none

theorem eq_empty_of_eqv {a b : Json} (h : a.eqv b = true) : a = .obj [] ↔ b = .obj [] := by
  constructor
  · rintro rfl
    cases b with
    | obj fields =>
        cases fields with
        | nil => rfl
        | cons f rest => simp [Json.eqv, Json.eqvFields] at h
    | _ => simp [Json.eqv] at h
  · rintro rfl
    cases a with
    | obj fields =>
        cases fields with
        | nil => rfl
        | cons f rest => simp [Json.eqv, Json.eqvFields] at h
    | _ => simp [Json.eqv] at h

theorem deterministic_emptySchema : Deterministic emptySchema := by
  intro a b h
  simp only [emptySchema, eq_empty_of_eqv h]

/-- Two tools of one name, the schema of one of them not a schema. -/
def sharedName : List (ToolDef × ToolCall) :=
  [(⟨"search", .obj []⟩, ⟨"1", "search", .null, none⟩),
    (⟨"search", .num "1"⟩, ⟨"2", "search", .null, none⟩),
    (⟨"search", .obj []⟩, ⟨"3", "search", .bool true, none⟩)]

theorem validateAll_sharedName :
    (validateAll emptySchema Table.empty sharedName).1 =
      sharedName.map fun c => validateAfresh emptySchema c.1 c.2 :=
  validateAll_eq_afresh emptySchema deterministic_emptySchema sharedName

end Pandaria.Ai

/-!
## Arguments that need no coercion

Arguments are coerced before they are looked at, whether they are valid or not.
Under a type that holds of the value nothing happens to it, and the fields and
elements of a valid value are valid themselves, so by induction on the schema
most values come back as they were. The exceptions are alternatives, where the
first that accepts what it has made of the value is taken, and keywords beside
which another one applies less widely than the coercion has it.
-/

namespace Pandaria.Ai

open Pandaria.Lib

variable {V : Type} (js : JsonSchema V)

/-- The validator of the schema accepts the value. -/
def Accepts (schema value : Json) : Prop :=
  ∃ v, js.validatorFor schema = .ok v ∧ js.isValid v value = true

/-! ### The parts of `coerce_value` -/

def coerceProperties (schema value : Json) : Json :=
  match schema.get "properties" with
  | some (.obj props) =>
      props.foldl (fun value p => value.modify p.1 fun field => coerceValue js field p.2) value
  | _ => value

def coerceItems (schema value : Json) : Json :=
  match schema.get "items" with
  | some itemSchema =>
      match value with
      | .arr items => .arr (items.map fun item => coerceValue js item itemSchema)
      | value => value
  | none => value

/-- The coerced clone for a member, where it validates. -/
def acceptedClone (value member : Json) : Option Json :=
  let cloned := coerceValue js value member
  match js.validatorFor member with
  | .ok validator => if js.isValid validator cloned then some cloned else none
  | .error _ => none

def coerceUnion (schema value : Json) (key : String) : Json :=
  match schema.get key with
  | some (.arr members) => (members.findSome? (acceptedClone js value)).getD value
  | _ => value

def coerceAdditional (schema value : Json) : Json :=
  match schema.get "properties" with
  | some (.obj props) =>
      match schema.get "additionalProperties" with
      | some addlSchema =>
          match value with
          | .obj args => .obj (args.map fun a =>
              if props.any fun p => p.1 = a.1 then a else (a.1, coerceValue js a.2 addlSchema))
          | value => value
      | none => value
  | _ => value

/-! The definition recurses through schemas that come with a proof of where they
are from. Here they come without. -/

theorem coerceProperties_eq (schema value : Json) :
    (match hprops : schema.get "properties" with
      | some (.obj props) =>
          props.attach.foldl (fun value p =>
            value.modify p.1.1 fun field => coerceValue js field p.1.2) value
      | _ => value) = coerceProperties js schema value := by
  rw [coerceProperties]
  split
  · next props h => simp only [h, List.foldl_subtype, List.unattach_attach]
  · next h =>
      split
      · next props h' => exact absurd h' (h props)
      · rfl

theorem coerceItems_eq (schema value : Json) :
    (match hitems : schema.get "items" with
      | some itemSchema =>
          match value with
          | .arr items => .arr (items.map fun item => coerceValue js item itemSchema)
          | value => value
      | none => value) = coerceItems js schema value := by
  rw [coerceItems]
  cases schema.get "items" with
  | none => rfl
  | some itemSchema => rfl

theorem coerceUnion_eq (schema : Json) :
    (fun value key => match hunion : schema.get key with
      | some (.arr members) =>
          (members.attach.findSome? fun member =>
            let cloned := coerceValue js value member.1
            match js.validatorFor member.1 with
            | .ok validator => if js.isValid validator cloned then some cloned else none
            | .error _ => none).getD value
      | _ => value) = coerceUnion js schema := by
  funext value key
  rw [coerceUnion]
  split
  · next members h =>
      rw [h]
      simp only [List.findSome?_subtype, List.unattach_attach]
      rfl
  · next h =>
      split
      · next members h' => exact absurd h' (h members)
      · rfl

theorem coerceAdditional_eq (schema value : Json) :
    (match schema.get "properties" with
      | some (.obj props) =>
          match hadditional : schema.get "additionalProperties" with
          | some addlSchema =>
              match value with
              | .obj args => .obj (args.map fun a =>
                  if props.any fun p => p.1 = a.1 then a
                  else (a.1, coerceValue js a.2 addlSchema))
              | value => value
          | none => value
      | _ => value) = coerceAdditional js schema value := by
  rw [coerceAdditional]
  split
  · cases schema.get "additionalProperties" with
    | none => rfl
    | some addlSchema => rfl
  · rfl

theorem coerceValue_eq (value schema : Json) :
    coerceValue js value schema =
      coerceAdditional js schema
        (unionKeys.foldl (coerceUnion js schema)
          (coerceItems js schema
            (coerceProperties js schema (coerceScalar js.parseF64 value schema)))) := by
  rw [coerceValue]
  generalize coerceScalar js.parseF64 value schema = value
  rewrite [← coerceProperties_eq, ← coerceItems_eq, ← coerceUnion_eq, ← coerceAdditional_eq]
  rfl

/-! ### What validity means -/

/-- The keys of a schema the coercion reads by themselves. -/
def coercionKeys : List String := ["type", "properties", "items", "allOf", "anyOf", "oneOf"]

/-- The coercion reads nothing of the schema. -/
def Silent (schema : Json) : Prop := ∀ key ∈ coercionKeys, schema.get key = none

def ofType (type : String) : Json → Bool
  | .null => type = "null"
  | .bool _ => type = "boolean"
  | .num _ => type = "integer" || type = "number"
  | .str _ => type = "string"
  | .arr _ => type = "array"
  | .obj _ => type = "object"

/-- `valid` is what JSON Schema means by a value that is valid under a part of
the schema `root`, as far as the keywords go which the coercion reads. Up to the
seventh draft a `$ref` puts the keywords beside it out of force. -/
structure Semantics (root args : Json) (valid : Json → Json → Prop) : Prop where
  accepted : Accepts js root args → valid root args
  type : ∀ schema value t, schema.get "$ref" = none → valid schema value →
    schema.get "type" = some (.str t) → ofType t value = true
  properties : ∀ schema props fields, schema.get "$ref" = none → valid schema (.obj fields) →
    schema.get "properties" = some (.obj props) →
    ∀ p ∈ props, ∀ a ∈ fields, a.1 = p.1 → valid p.2 a.2
  items : ∀ schema s elems, schema.get "$ref" = none → schema.get "prefixItems" = none →
    valid schema (.arr elems) → schema.get "items" = some (.obj s) →
    ∀ item ∈ elems, valid (.obj s) item
  additional : ∀ schema props s fields, schema.get "$ref" = none →
    schema.get "patternProperties" = none → valid schema (.obj fields) →
    schema.get "properties" = some (.obj props) →
    schema.get "additionalProperties" = some (.obj s) →
    ∀ a ∈ fields, (∀ p ∈ props, p.1 ≠ a.1) → valid (.obj s) a.2
  allOf : ∀ schema members value, schema.get "$ref" = none → valid schema value →
    schema.get "allOf" = some (.arr members) → ∀ m ∈ members, valid m value

/-- The first member whose coerced clone validates. -/
def Picked (value : Json) (members : List Json) (m : Json) : Prop :=
  members.find? (fun m => (acceptedClone js value m).isSome) = some m

/-- Wherever the coercion comes to, the keywords it reads apply as it reads them,
and the alternative it takes accepts the value as it is. -/
inductive Unmoved (valid : Json → Json → Prop) : Json → Json → Prop where
  | silent {schema value : Json} (h : Silent schema) : Unmoved valid schema value
  | reads {schema value : Json} (plain : schema.get "$ref" = none)
      (properties : ∀ props fields, schema.get "properties" = some (.obj props) →
        value = .obj fields → ∀ p ∈ props, ∀ a ∈ fields, a.1 = p.1 → Unmoved valid p.2 a.2)
      (wholly : ∀ s elems, schema.get "items" = some s → value = .arr elems →
        schema.get "prefixItems" = none ∨ Silent s)
      (items : ∀ s elems, schema.get "items" = some s → value = .arr elems →
        ∀ item ∈ elems, Unmoved valid s item)
      (alternatives : ∀ key ∈ ["anyOf", "oneOf"], ∀ members m,
        schema.get key = some (.arr members) → Picked js value members m → valid m value)
      (unions : ∀ key ∈ unionKeys, ∀ members m, schema.get key = some (.arr members) →
        Picked js value members m → Unmoved valid m value)
      (others : ∀ props s fields, schema.get "properties" = some (.obj props) →
        schema.get "additionalProperties" = some s → value = .obj fields →
        schema.get "patternProperties" = none ∨ Silent s)
      (additional : ∀ props s fields, schema.get "properties" = some (.obj props) →
        schema.get "additionalProperties" = some s → value = .obj fields →
        ∀ a ∈ fields, (∀ p ∈ props, p.1 ≠ a.1) → Unmoved valid s a.2) :
      Unmoved valid schema value

/-! ### Values that stay as they are -/

variable {js} {valid : Json → Json → Prop} {schema value : Json}

theorem foldl_eq_self {α β : Type} {f : α → β → α} {a : α} {l : List β}
    (h : ∀ b ∈ l, f a b = a) : l.foldl f a = a := by
  induction l with
  | nil => rfl
  | cons b l ih =>
      rw [List.foldl_cons, h b List.mem_cons_self]
      exact ih fun c hc => h c (List.mem_cons_of_mem b hc)

theorem coerceScalar_of_ofType {parseF64 : String → Option String} {t : String}
    (htype : schema.get "type" = some (.str t)) (h : ofType t value = true) :
    coerceScalar parseF64 value schema = value := by
  rw [coerceScalar, htype]
  cases value with
  | str s =>
      have ht : t = "string" := by simpa [ofType] using h
      subst ht
      rfl
  | num n =>
      have ht : t = "integer" ∨ t = "number" := by simpa [ofType] using h
      obtain rfl | rfl := ht
      · rfl
      · rfl
  | bool b =>
      have ht : t = "boolean" := by simpa [ofType] using h
      subst ht
      rfl
  | null | arr | obj => rfl

theorem coerceScalar_of_untyped {parseF64 : String → Option String}
    (h : (schema.get "type").bind Json.asStr = none) :
    coerceScalar parseF64 value schema = value := by
  rw [coerceScalar, h]

theorem modify_eq_self {key : String} {f : Json → Json} {fields : List (String × Json)}
    (h : ∀ a ∈ fields, a.1 = key → f a.2 = a.2) :
    (Json.obj fields).modify key f = .obj fields := by
  rw [Json.modify, List.map_congr_left (g := id), List.map_id]
  intro a ha
  split
  · next hkey => rw [h a ha hkey]; rfl
  · rfl

theorem coerceProperties_eq_self
    (h : ∀ props fields, schema.get "properties" = some (.obj props) → value = .obj fields →
      ∀ p ∈ props, ∀ a ∈ fields, a.1 = p.1 → coerceValue js a.2 p.2 = a.2) :
    coerceProperties js schema value = value := by
  rw [coerceProperties]
  split
  · next props hprops =>
      refine foldl_eq_self fun p hp => ?_
      cases value with
      | obj fields => exact modify_eq_self (h props fields hprops rfl p hp)
      | null | bool | num | str | arr => rfl
  · rfl

theorem coerceItems_eq_self
    (h : ∀ s elems, schema.get "items" = some s → value = .arr elems →
      ∀ item ∈ elems, coerceValue js item s = item) :
    coerceItems js schema value = value := by
  rw [coerceItems]
  split
  · next s hitems =>
      cases value with
      | arr elems =>
          have hid : elems.map (fun item => coerceValue js item s) = elems.map id :=
            List.map_congr_left (h s elems hitems rfl)
          simp only [hid, List.map_id]
      | null | bool | num | str | obj => rfl
  · rfl

theorem acceptedClone_eq {m clone : Json} (h : acceptedClone js value m = some clone) :
    clone = coerceValue js value m := by
  rw [acceptedClone] at h
  split at h
  · split at h
    · exact (Option.some.inj h).symm
    · cases h
  · cases h

theorem coerceUnion_eq_self {key : String}
    (h : ∀ members m, schema.get key = some (.arr members) → Picked js value members m →
      coerceValue js value m = value) :
    coerceUnion js schema value key = value := by
  rw [coerceUnion]
  split
  · next members hmembers =>
      cases hfirst : members.findSome? (acceptedClone js value) with
      | none => rfl
      | some clone =>
          obtain ⟨before, m, after, rfl, hclone, hnone⟩ := List.findSome?_eq_some_iff.mp hfirst
          have hpicked : Picked js value (before ++ m :: after) m := by
            rw [Picked, List.find?_append, List.find?_eq_none.mpr, List.find?_cons]
            · simp [hclone]
            · intro x hx
              simp [hnone x hx]
          rw [Option.getD_some, acceptedClone_eq hclone]
          exact h _ m hmembers hpicked
  · rfl

theorem coerceAdditional_eq_self
    (h : ∀ props s fields, schema.get "properties" = some (.obj props) →
      schema.get "additionalProperties" = some s → value = .obj fields →
      ∀ a ∈ fields, (∀ p ∈ props, p.1 ≠ a.1) → coerceValue js a.2 s = a.2) :
    coerceAdditional js schema value = value := by
  rw [coerceAdditional]
  split
  · next props hprops =>
      split
      · next s hadditional =>
          cases value with
          | obj fields =>
              simp only []
              rw [List.map_congr_left (g := id), List.map_id]
              intro a ha
              split
              · rfl
              · next hother =>
                  have hnot : ∀ p ∈ props, p.1 ≠ a.1 := by
                    intro p hp heq
                    exact hother (List.any_eq_true.mpr ⟨p, hp, decide_eq_true heq⟩)
                  rw [h props s fields hprops hadditional rfl a ha hnot]
                  rfl
          | null | bool | num | str | arr => rfl
      · rfl
  · rfl

theorem coerceValue_of_silent (h : Silent schema) : coerceValue js value schema = value := by
  have htype : schema.get "type" = none := h "type" (by decide)
  have hprops : schema.get "properties" = none := h "properties" (by decide)
  have hitems : schema.get "items" = none := h "items" (by decide)
  rw [coerceValue_eq, coerceScalar_of_untyped (by rw [htype]; rfl),
    coerceProperties_eq_self (by simp [hprops]), coerceItems_eq_self (by simp [hitems]),
    foldl_eq_self, coerceAdditional_eq_self (by simp [hprops])]
  intro key hkey
  have hkeys : unionKeys ⊆ coercionKeys := by decide
  exact coerceUnion_eq_self (by simp [h key (hkeys hkey)])

theorem silent_of_not_obj (h : ∀ fields, schema ≠ .obj fields) : Silent schema := by
  intro key hkey
  cases schema with
  | obj fields => exact absurd rfl (h fields)
  | null | bool | num | str | arr => rfl

/-- By induction on the way the coercion takes. -/
theorem coerceValue_of_unmoved {root args : Json} (hsem : Semantics js root args valid)
    (hun : Unmoved js valid schema value) (hvalid : valid schema value) :
    coerceValue js value schema = value := by
  induction hun with
  | silent h => exact coerceValue_of_silent h
  | @reads schema value plain _ wholly _ alternatives _ others _ ihprops ihitems ihunions ihadd =>
      have hscalar : coerceScalar js.parseF64 value schema = value := by
        cases htype : (schema.get "type").bind Json.asStr with
        | none => exact coerceScalar_of_untyped htype
        | some t =>
            obtain ⟨v, hv, hstr⟩ := Option.bind_eq_some_iff.mp htype
            cases v with
            | str s => exact coerceScalar_of_ofType hv (hsem.type _ _ _ plain hvalid hv)
            | null | bool | num | arr | obj => cases hstr
      have hprops : coerceProperties js schema value = value := by
        refine coerceProperties_eq_self ?_
        intro props fields hprops hvalue p hp a ha hkey
        subst hvalue
        exact ihprops props fields hprops rfl p hp a ha hkey
          (hsem.properties _ _ _ plain hvalid hprops p hp a ha hkey)
      have hitems : coerceItems js schema value = value := by
        refine coerceItems_eq_self ?_
        intro s elems hitems hvalue item hitem
        subst hvalue
        by_cases hsilent : Silent s
        · exact coerceValue_of_silent hsilent
        · have hwholly := (wholly s elems hitems rfl).resolve_right hsilent
          cases s with
          | obj fields =>
              exact ihitems _ elems hitems rfl item hitem
                (hsem.items _ _ _ plain hwholly hvalid hitems item hitem)
          | null | bool | num | str | arr =>
              exact absurd (silent_of_not_obj (by simp)) hsilent
      have hunion : unionKeys.foldl (coerceUnion js schema) value = value := by
        refine foldl_eq_self ?_
        intro key hkey
        refine coerceUnion_eq_self ?_
        intro members m hmembers hpicked
        have hm : valid m value := by
          by_cases hall : key = "allOf"
          · subst hall
            exact hsem.allOf _ _ _ plain hvalid hmembers m (List.mem_of_find?_eq_some hpicked)
          · have hrest : key ∈ ["anyOf", "oneOf"] := by
              simpa [unionKeys, hall] using hkey
            exact alternatives key hrest members m hmembers hpicked
        exact ihunions key hkey members m hmembers hpicked hm
      have hadd : coerceAdditional js schema value = value := by
        refine coerceAdditional_eq_self ?_
        intro props s fields hknown hs hvalue a ha hnot
        subst hvalue
        by_cases hsilent : Silent s
        · exact coerceValue_of_silent hsilent
        · have hothers := (others props s fields hknown hs rfl).resolve_right hsilent
          cases s with
          | obj s =>
              exact ihadd props _ fields hknown hs rfl a ha hnot
                (hsem.additional _ _ _ _ plain hothers hvalid hknown hs a ha hnot)
          | null | bool | num | str | arr =>
              exact absurd (silent_of_not_obj (by simp)) hsilent
      rw [coerceValue_eq, hscalar, hprops, hitems, hunion, hadd]

/-! ### Validation -/

theorem sound_validateAll {cache : SchemaCache V} (h : cache.Sound js.validatorFor)
    (calls : List (ToolDef × ToolCall)) : (validateAll js cache calls).2.Sound js.validatorFor := by
  induction calls generalizing cache with
  | nil => exact h
  | cons call rest ih =>
      obtain ⟨tool, toolCall⟩ := call
      exact ih (sound_validateToolArguments h tool toolCall)

/-- What comes back has been coerced and has been accepted. -/
theorem validateAfresh_eq_ok_iff {tool : ToolDef} {toolCall : ToolCall} {out : Json} :
    validateAfresh js tool toolCall = .ok out ↔
      coerceValue js toolCall.arguments tool.parameters = out ∧
        Accepts js tool.parameters out := by
  rw [validateAfresh]
  generalize coerceValue js toolCall.arguments tool.parameters = args
  cases hcompiled : js.validatorFor tool.parameters with
  | error e => simp [checkArguments, Accepts, hcompiled]
  | ok v =>
      have haccepts (value : Json) :
          Accepts js tool.parameters value ↔ js.isValid v value = true := by
        simp [Accepts, hcompiled]
      rw [haccepts, checkArguments]
      split
      · next hvalid =>
          constructor
          · intro h
            obtain rfl := Except.ok.inj h
            exact ⟨rfl, hvalid⟩
          · intro h
            rw [h.1]
      · next hinvalid =>
          constructor
          · intro h
            cases h
          · intro h
            rw [h.1] at hinvalid
            exact absurd h.2 hinvalid

/-- After any calls before it: what is valid and not moved by the coercion is
accepted unchanged, and what is accepted is valid. -/
theorem validateToolArguments_respects (js : JsonSchema V) (hdet : Deterministic js)
    (calls : List (ToolDef × ToolCall)) (tool : ToolDef) (toolCall : ToolCall) :
    (∀ valid, Semantics js tool.parameters toolCall.arguments valid →
      Accepts js tool.parameters toolCall.arguments →
      Unmoved js valid tool.parameters toolCall.arguments →
      (validateToolArguments js (validateAll js Table.empty calls).2 tool toolCall).1 =
        .ok toolCall.arguments) ∧
    ∀ out, (validateToolArguments js (validateAll js Table.empty calls).2 tool toolCall).1 =
      .ok out → Accepts js tool.parameters out := by
  have hsound := @sound_validateAll V js Table.empty Memo.sound_empty calls
  rw [validateToolArguments_fst hdet hsound]
  constructor
  · intro valid hsem haccepts hun
    have hsame := coerceValue_of_unmoved hsem hun (hsem.accepted haccepts)
    exact validateAfresh_eq_ok_iff.mpr ⟨hsame, haccepts⟩
  · intro out hout
    exact (validateAfresh_eq_ok_iff.mp hout).2

/-! ### Some schemas -/

/-- What `jsonschema` says about the values below. The two it does not accept
have a number where their schema has a string. -/
def numbersRefused : JsonSchema Unit where
  validatorFor _ := .ok ()
  isValid _ value :=
    value ≠ .obj [("x-id", .num "5")] && value ≠ .obj [("row", .arr [.num "5"])]
  iterErrors _ _ := [("/", "5 is not of type \"string\"")]
  parseF64 _ := none

theorem deterministic_numbersRefused : Deterministic numbersRefused := fun _ _ _ => rfl

def typed (type : String) : Json := .obj [("type", .str type)]

def argumentsOf (arguments : Json) : ToolCall :=
  { id := "1", name := "tool", arguments := arguments, thoughtSignature := none }

/-- A tool with an alternative. -/
def alternative : Json := .obj [("anyOf", .arr [typed "integer", typed "string"])]

def alternativeTool : ToolDef :=
  { name := "tool"
    parameters := .obj [("type", .str "object"), ("properties", .obj [("val", alternative)])] }

/-- The places the coercion comes to, and what it finds there. -/
def AlternativeValid (val schema value : Json) : Prop :=
  (schema = alternativeTool.parameters ∧ value = .obj [("val", val)]) ∨
    (schema = alternative ∧ value = val) ∨
    ∃ t, ofType t val = true ∧ schema = typed t ∧ value = val

theorem semantics_alternative (val : Json) :
    Semantics numbersRefused alternativeTool.parameters (.obj [("val", val)])
      (AlternativeValid val) := by
  constructor
  · intro _
    exact .inl ⟨rfl, rfl⟩
  · rintro schema value t - (⟨rfl, rfl⟩ | ⟨rfl, rfl⟩ | ⟨t', hval, rfl, rfl⟩) htype
    · obtain rfl : "object" = t := by simpa [alternativeTool, Json.get] using htype
      rfl
    · simp [alternative, Json.get] at htype
    · obtain rfl : t' = t := by simpa [typed, Json.get] using htype
      exact hval
  · rintro schema props fields - (⟨rfl, hfields⟩ | ⟨rfl, -⟩ | ⟨t', -, rfl, -⟩) hprops p hp a ha -
    · obtain rfl : [("val", alternative)] = props := by
        simpa [alternativeTool, Json.get] using hprops
      obtain rfl := Json.obj.inj hfields
      rw [List.mem_singleton.mp hp, List.mem_singleton.mp ha]
      exact .inr (.inl ⟨rfl, rfl⟩)
    · simp [alternative, Json.get] at hprops
    · simp [typed, Json.get] at hprops
  · rintro schema s elems - - (⟨rfl, -⟩ | ⟨rfl, -⟩ | ⟨t', -, rfl, -⟩) hitems
    · simp [alternativeTool, Json.get] at hitems
    · simp [alternative, Json.get] at hitems
    · simp [typed, Json.get] at hitems
  · rintro schema props s fields - - (⟨rfl, -⟩ | ⟨rfl, -⟩ | ⟨t', -, rfl, -⟩) - hadditional
    · simp [alternativeTool, Json.get] at hadditional
    · simp [alternative, Json.get] at hadditional
    · simp [typed, Json.get] at hadditional
  · rintro schema members value - (⟨rfl, -⟩ | ⟨rfl, -⟩ | ⟨t', -, rfl, -⟩) hall
    · simp [alternativeTool, Json.get] at hall
    · simp [alternative, Json.get] at hall
    · simp [typed, Json.get] at hall

theorem unmoved_typed (js : JsonSchema V) (valid : Json → Json → Prop) (t : String)
    (value : Json) : Unmoved js valid (typed t) value := by
  refine .reads rfl ?_ ?_ ?_ ?_ ?_ ?_ ?_
  · simp [typed, Json.get]
  · simp [typed, Json.get]
  · simp [typed, Json.get]
  · simp [typed, Json.get]
  · simp [typed, Json.get, unionKeys]
  · simp [typed, Json.get]
  · simp [typed, Json.get]

/-- A number is taken by the first alternative as it is. -/
theorem unmoved_alternative :
    Unmoved numbersRefused (AlternativeValid (.num "42")) alternativeTool.parameters
      (.obj [("val", .num "42")]) := by
  have hpicked {key : String} {members : List Json} {m : Json}
      (hmembers : alternative.get key = some (.arr members))
      (hpick : Picked numbersRefused (.num "42") members m) : m = typed "integer" := by
    have hkey : key = "anyOf" := by
      by_contra hne
      simp [alternative, Json.get, Ne.symm hne] at hmembers
    subst hkey
    obtain rfl : [typed "integer", typed "string"] = members := by
      simpa [alternative, Json.get] using hmembers
    have hfirst : Picked numbersRefused (.num "42") [typed "integer", typed "string"]
        (typed "integer") := by
      unfold Picked
      decide +kernel
    exact Option.some.inj (hpick.symm.trans hfirst)
  have hval : Unmoved numbersRefused (AlternativeValid (.num "42")) alternative (.num "42") := by
    refine .reads rfl ?_ ?_ ?_ ?_ ?_ ?_ ?_
    · simp
    · simp
    · simp
    · intro key _ members m hmembers hpick
      exact .inr (.inr ⟨"integer", rfl, hpicked hmembers hpick, rfl⟩)
    · intro key _ members m hmembers hpick
      rw [hpicked hmembers hpick]
      exact unmoved_typed _ _ _ _
    · simp
    · simp
  refine .reads rfl ?_ ?_ ?_ ?_ ?_ ?_ ?_
  · intro props fields hprops hfields p hp a ha _
    obtain rfl : [("val", alternative)] = props := by
      simpa [alternativeTool, Json.get] using hprops
    obtain rfl := Json.obj.inj hfields
    rw [List.mem_singleton.mp hp, List.mem_singleton.mp ha]
    exact hval
  · simp
  · simp
  · simp [alternativeTool, Json.get]
  · simp [alternativeTool, Json.get, unionKeys]
  · simp [alternativeTool, Json.get]
  · simp [alternativeTool, Json.get]

theorem validate_alternative :
    (validateToolArguments numbersRefused (validateAll numbersRefused Table.empty []).2
      alternativeTool (argumentsOf (.obj [("val", .num "42")]))).1 =
        .ok (.obj [("val", .num "42")]) :=
  (validateToolArguments_respects numbersRefused deterministic_numbersRefused [] alternativeTool
    (argumentsOf (.obj [("val", .num "42")]))).1 (AlternativeValid (.num "42"))
    (semantics_alternative (.num "42")) ⟨(), rfl, by decide⟩ unmoved_alternative

/-! What is valid is not always accepted unchanged. -/

/-- Valid arguments come back as they are. -/
def AcceptsValid (js : JsonSchema V) (tool : ToolDef) (toolCall : ToolCall) : Prop :=
  ∀ calls valid, Semantics js tool.parameters toolCall.arguments valid →
    Accepts js tool.parameters toolCall.arguments →
    (validateToolArguments js (validateAll js Table.empty calls).2 tool toolCall).1 =
      .ok toolCall.arguments

/-- A key that has its own type, which the one of the other keys does not concern. -/
def patternTool : ToolDef :=
  { name := "tool"
    parameters := .obj [("type", .str "object"), ("properties", .obj []),
      ("patternProperties", .obj [("^x-", typed "string")]),
      ("additionalProperties", typed "integer")] }

theorem semantics_pattern (args : List (String × Json)) :
    Semantics numbersRefused patternTool.parameters (.obj args)
      (fun schema value => schema = patternTool.parameters ∧ value = .obj args) := by
  constructor
  · intro _
    exact ⟨rfl, rfl⟩
  · rintro schema value t - ⟨rfl, rfl⟩ htype
    obtain rfl : "object" = t := by simpa [patternTool, Json.get] using htype
    rfl
  · rintro schema props fields - ⟨rfl, -⟩ hprops p hp
    obtain rfl : [] = props := by simpa [patternTool, Json.get] using hprops
    cases hp
  · rintro schema s elems - - ⟨rfl, -⟩ hitems
    simp [patternTool, Json.get] at hitems
  · rintro schema props s fields - hpatterns ⟨rfl, -⟩
    simp [patternTool, Json.get] at hpatterns
  · rintro schema members value - ⟨rfl, -⟩ hall
    simp [patternTool, Json.get] at hall

/-- A row that starts with a text. -/
def row : Json := .obj [("prefixItems", .arr [typed "string"]), ("items", typed "integer")]

def rowTool : ToolDef :=
  { name := "tool", parameters := .obj [("properties", .obj [("row", row)])] }

theorem semantics_row (elems : Json) :
    Semantics numbersRefused rowTool.parameters (.obj [("row", elems)])
      (fun schema value => (schema = rowTool.parameters ∧ value = .obj [("row", elems)]) ∨
        (schema = row ∧ value = elems)) := by
  constructor
  · intro _
    exact .inl ⟨rfl, rfl⟩
  · rintro schema value t - (⟨rfl, rfl⟩ | ⟨rfl, rfl⟩) htype
    · simp [rowTool, Json.get] at htype
    · simp [row, Json.get] at htype
  · rintro schema props fields - (⟨rfl, hfields⟩ | ⟨rfl, -⟩) hprops p hp a ha -
    · obtain rfl : [("row", row)] = props := by simpa [rowTool, Json.get] using hprops
      obtain rfl := Json.obj.inj hfields
      rw [List.mem_singleton.mp hp, List.mem_singleton.mp ha]
      exact .inr ⟨rfl, rfl⟩
    · simp [row, Json.get] at hprops
  · rintro schema s elems - hprefix (⟨rfl, -⟩ | ⟨rfl, -⟩) hitems
    · simp [rowTool, Json.get] at hitems
    · simp [row, Json.get] at hprefix
  · rintro schema props s fields - - (⟨rfl, -⟩ | ⟨rfl, -⟩) - hadditional
    · simp [rowTool, Json.get] at hadditional
    · simp [row, Json.get] at hadditional
  · rintro schema members value - (⟨rfl, -⟩ | ⟨rfl, -⟩) hall
    · simp [rowTool, Json.get] at hall
    · simp [row, Json.get] at hall

/-- A text that reads as a number is turned into one, where a number is one of
the alternatives, where the type is that of other keys and where it is that of
the elements after the first. -/
theorem not_acceptsValid :
    ¬ AcceptsValid numbersRefused alternativeTool (argumentsOf (.obj [("val", .str "42")])) ∧
      ¬ AcceptsValid numbersRefused patternTool (argumentsOf (.obj [("x-id", .str "5")])) ∧
      ¬ AcceptsValid numbersRefused rowTool (argumentsOf (.obj [("row", .arr [.str "5"])])) := by
  refine ⟨?_, ?_, ?_⟩
  · intro h
    have hsame := h [] _ (semantics_alternative (.str "42")) ⟨(), rfl, by decide⟩
    exact absurd hsame (by decide +kernel)
  · intro h
    have hsame := h [] _ (semantics_pattern [("x-id", .str "5")]) ⟨(), rfl, by decide⟩
    exact absurd hsame (by decide +kernel)
  · intro h
    have hsame := h [] _ (semantics_row (.arr [.str "5"])) ⟨(), rfl, by decide⟩
    exact absurd hsame (by decide +kernel)

end Pandaria.Ai
