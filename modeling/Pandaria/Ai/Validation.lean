import Pandaria.Ai.Types
import Pandaria.Lib.Caches

/-!
# The arguments of a tool call

`ai-provider/src/validation.rs`: arguments are coerced to the types of the schema of
the tool and checked against it, with a cache of compiled schemas that all sessions
of the process share. The crate `jsonschema` and the parser of floating-point numbers
are parameters (`JsonSchema`).
-/

namespace Pandaria.Ai

open Pandaria.Lib

/-! ## What comes from elsewhere -/

/-- `jsonschema`, with `str::parse::<f64>`, which gives the number as JSON prints
it when there is one. An error of a validator is a path and a text. -/
structure JsonSchema (V : Type) where
  validatorFor : Json → Except String V
  isValid : V → Json → Bool
  iterErrors : V → Json → List (String × String)
  parseF64 : String → Option String

/-- Two numbers that print differently are equal when they are the zeros of `f64`. -/
def sameNumber (a b : String) : Bool :=
  a = b || (["0.0", "-0.0"].contains a && ["0.0", "-0.0"].contains b)

mutual

/-- `Value::eq`. -/
def Json.eqv : Json → Json → Bool
  | .null, .null => true
  | .bool a, .bool b => a = b
  | .num a, .num b => sameNumber a b
  | .str a, .str b => a = b
  | .arr a, .arr b => Json.eqvElems a b
  | .obj a, .obj b => Json.eqvFields a b
  | _, _ => false

def Json.eqvElems : List Json → List Json → Bool
  | [], [] => true
  | a :: as, b :: bs => a.eqv b && Json.eqvElems as bs
  | _, _ => false

def Json.eqvFields : List (String × Json) → List (String × Json) → Bool
  | [], [] => true
  | (k, a) :: as, (l, b) :: bs => k = l && a.eqv b && Json.eqvFields as bs
  | _, _ => false

end

/-! ## Coercion -/

/-- `str::parse::<i64>`. -/
def parseI64 (s : String) : Option Int :=
  let (negative, digits) := match s.toList with
    | '-' :: rest => (true, rest)
    | '+' :: rest => (false, rest)
    | cs => (false, cs)
  if digits.isEmpty || !digits.all Char.isDigit then none
  else
    let n : Int := digits.foldl (fun n c => n * 10 + (c.toNat - '0'.toNat : Nat)) 0
    let n := if negative then -n else n
    if -(2 ^ 63 : Nat) ≤ n ∧ n < (2 ^ 63 : Nat) then some n else none

def eqIgnoreAsciiCase (a b : String) : Bool :=
  a.toList.map Char.toLower = b.toList.map Char.toLower

/-- The first part of `coerce_value`: the value by itself. -/
def coerceScalar (parseF64 : String → Option String) (value schema : Json) : Json :=
  match (schema.get "type").bind Json.asStr with
  | none => value
  | some type =>
      match value with
      | .str s =>
          if type = "integer" then ((parseI64 s).map fun n => .num (toString n)).getD value
          else if type = "number" then ((parseF64 s).map .num).getD value
          else if type = "boolean" then
            if eqIgnoreAsciiCase s "true" then .bool true
            else if eqIgnoreAsciiCase s "false" then .bool false
            else value
          else value
      | .num n =>
          if type = "string" then .str n
          else if type = "boolean" then .bool (((parseI64 n).map fun v => decide (v ≠ 0)).getD true)
          else value
      | .bool b => if type = "integer" ∨ type = "number" then .num (if b then "1" else "0") else value
      | value => value

/-- `args.get_mut(key)`, where the field is there. -/
def Json.modify (key : String) (f : Json → Json) : Json → Json
  | .obj args => .obj (args.map fun a => if a.1 = key then (a.1, f a.2) else a)
  | value => value

def unionKeys : List String := ["allOf", "anyOf", "oneOf"]

theorem Json.sizeOf_field {fields : List (String × Json)} {f : String × Json} (h : f ∈ fields) :
    sizeOf f.2 < sizeOf (Json.obj fields) := by
  have hmem := List.sizeOf_lt_of_mem h
  obtain ⟨k, v⟩ := f
  simp at hmem ⊢
  omega

theorem Json.sizeOf_elem {elems : List Json} {v : Json} (h : v ∈ elems) :
    sizeOf v < sizeOf (Json.arr elems) := by
  have hmem := List.sizeOf_lt_of_mem h
  simp
  omega

theorem Json.sizeOf_get {key : String} {value v : Json} (h : value.get key = some v) :
    sizeOf v < sizeOf value := by
  cases value with
  | obj fields =>
      obtain ⟨f, hf, rfl⟩ := Option.map_eq_some_iff.mp h
      exact Json.sizeOf_field (List.mem_of_find?_eq_some hf)
  | _ => cases h

section

variable {V : Type} (js : JsonSchema V)

/-- `coerce_value`. -/
def coerceValue (value schema : Json) : Json :=
  let value := coerceScalar js.parseF64 value schema
  let value := match hprops : schema.get "properties" with
    | some (.obj props) =>
        props.attach.foldl (fun value p =>
          value.modify p.1.1 fun field => coerceValue field p.1.2) value
    | _ => value
  let value := match hitems : schema.get "items" with
    | some itemSchema =>
        match value with
        | .arr items => .arr (items.map fun item => coerceValue item itemSchema)
        | value => value
    | none => value
  let value := unionKeys.foldl (fun value key =>
    match hunion : schema.get key with
    | some (.arr members) =>
        (members.attach.findSome? fun member =>
          let cloned := coerceValue value member.1
          match js.validatorFor member.1 with
          | .ok validator => if js.isValid validator cloned then some cloned else none
          | .error _ => none).getD value
    | _ => value) value
  match schema.get "properties" with
  | some (.obj props) =>
      match hadditional : schema.get "additionalProperties" with
      | some addlSchema =>
          match value with
          | .obj args => .obj (args.map fun a =>
              if props.any fun p => p.1 = a.1 then a else (a.1, coerceValue a.2 addlSchema))
          | value => value
      | none => value
  | _ => value
termination_by sizeOf schema
decreasing_by
  · exact Nat.lt_trans (Json.sizeOf_field p.2) (Json.sizeOf_get hprops)
  · exact Json.sizeOf_get hitems
  · exact Nat.lt_trans (Json.sizeOf_elem member.2) (Json.sizeOf_get hunion)
  · exact Json.sizeOf_get hadditional

end

/-! ## Validation -/

/-- `ToolDef`, without the description. -/
structure ToolDef where
  name : String
  parameters : Json
deriving DecidableEq

structure ValidationMessage where
  path : String
  message : String
deriving DecidableEq

inductive ValidationError where
  | toolNotFound (name : String)
  | schemaViolation (tool : String) (errors : List ValidationMessage) (received : Json)
      (errorsFormatted : String)
deriving DecidableEq

namespace ValidationError

/-- `schema_violation`. -/
def ofMessages (tool : String) (errors : List ValidationMessage) (received : Json) :
    ValidationError :=
  .schemaViolation tool errors received
    ("\n".intercalate (errors.map fun e => "  - " ++ e.path ++ ": " ++ e.message))

end ValidationError

/-- The schemas compiled last, by the name of the tool. -/
abbrev SchemaCache (V : Type) := Memo String Json V

section

variable {V : Type} (js : JsonSchema V)

def collectErrors (compiled : V) (args : Json) : List ValidationMessage :=
  (js.iterErrors compiled args).map fun e =>
    { path :=
        if e.1 = "" ∨ e.1 = "/" then "root"
        else String.ofList (e.1.toList.dropWhile fun c => c = '/')
      message := e.2 }

/-- The end of `validate_tool_arguments`, with the compiled schema. -/
def checkArguments (tool : ToolDef) (args : Json) : Except String V → Except ValidationError Json
  | .error e => .error (.ofMessages tool.name [⟨"", "schema compilation error: " ++ e⟩] args)
  | .ok compiled =>
      if js.isValid compiled args then .ok args
      else .error (.ofMessages tool.name (collectErrors js compiled args) args)

/-- `validate_tool_arguments`. The cache is locked from the lookup to the insert. -/
def validateToolArguments (cache : SchemaCache V) (tool : ToolDef) (toolCall : ToolCall) :
    Except ValidationError Json × SchemaCache V :=
  let args := coerceValue js toolCall.arguments tool.parameters
  let (compiled, cache) := cache.ask Json.eqv js.validatorFor tool.name tool.parameters
  (checkArguments js tool args compiled, cache)

/-- `validate_tool_call`. -/
def validateToolCall (cache : SchemaCache V) (tools : List ToolDef) (toolCall : ToolCall) :
    Except ValidationError Json × SchemaCache V :=
  match tools.find? fun t => t.name = toolCall.name with
  | none => (.error (.toolNotFound toolCall.name), cache)
  | some tool => validateToolArguments js cache tool toolCall

end

end Pandaria.Ai
